import MediaRelay.Proofs.FrameHistory

/-!
What the frames are that a switch point refers to. All of them were seen and are still remembered,
within reach of a receiver on the present layer, and of one on the target as far as the spatial index
goes (`switch_references_reach`). The temporal index of the target is not asked for.
-/

namespace MediaRelay

namespace Layer

variable {l c t : Layer}

theorem fitsWithin_of_temporal (hfits : l.fitsWithin c) (hspatial : l.spatial ≤ t.spatial)
    (htemporal : c.temporal ≤ t.temporal) : l.fitsWithin t :=
  fitsWithin_iff.mpr ⟨hspatial, UInt8.le_trans (fitsWithin_iff.mp hfits).2 htemporal⟩

end Layer

namespace FrameHistory

/-- A packet as the history is told of it, with the graph that holds when it comes. -/
structure Packet where
  layer : Layer
  descriptor : Descriptor
  graph : LayerGraph

/-- Notes packets in turn, with what those say that are not refused. -/
def observeAll (h : FrameHistory) : List Packet → FrameHistory × List Sighting
  | [] => (h, [])
  | p :: rest =>
    let (h, outcome) := h.observe p.layer p.descriptor p.graph
    let (h, sightings) := h.observeAll rest
    (h, outcome.toOption.toList ++ sightings)

theorem mem_observeAll_cons {h : FrameHistory} {p : Packet} {rest : List Packet}
    {seen : Sighting} :
    seen ∈ (h.observeAll (p :: rest)).2 ↔
      (h.observe p.layer p.descriptor p.graph).2 = .ok seen ∨
        seen ∈ ((h.observe p.layer p.descriptor p.graph).1.observeAll rest).2 := by
  have hfirst : seen ∈ (h.observe p.layer p.descriptor p.graph).2.toOption.toList ↔
      (h.observe p.layer p.descriptor p.graph).2 = .ok seen := by
    cases (h.observe p.layer p.descriptor p.graph).2 <;> simp [Except.toOption, eq_comm]
  rw [← hfirst]
  exact List.mem_append

/-- What a packet says comes from its header and the distances that hold for it. -/
theorem exists_packet {h : FrameHistory} {packets : List Packet} {seen : Sighting}
    (hseen : seen ∈ (h.observeAll packets).2) :
    ∃ p ∈ packets, ∃ ds, diffs p.graph p.layer p.descriptor = .ok ds ∧
      seen = sighting seen.frame p.layer p.descriptor.startOfFrame ds := by
  induction packets generalizing h with
  | nil => cases hseen
  | cons p rest ih =>
    obtain hfirst | hrest := mem_observeAll_cons.mp hseen
    · obtain ⟨ds, hds, heq⟩ := observe_ok (Prod.ext rfl hfirst)
      exact ⟨p, List.mem_cons_self, ds, hds, by rw [heq]; rfl⟩
    · obtain ⟨q, hq, hsaid⟩ := ih hrest
      exact ⟨q, List.mem_cons_of_mem _ hq, hsaid⟩

/-- A frame that is remembered after a packet was there before, or the packet is of it. -/
theorem observe_place {h : FrameHistory} (layer : Layer) (d : Descriptor) (g : LayerGraph)
    {place : Nat} {frame : Frame}
    (hframe : (h.observe layer d g).1.places.get? place = some frame) :
    h.places.get? place = some frame ∨ ∃ seen, (h.observe layer d g).2 = .ok seen ∧
      seen.frame = frame.number ∧ seen.layer = frame.layer := by
  unfold observe at hframe ⊢
  split at hframe
  · exact .inl hframe
  · rename_i ds _
    simp only at hframe
    split at hframe
    · split at hframe
      · exact .inl hframe
      · exact .inl hframe
    · rename_i hnew
      by_cases hplace : place = Serial.extend 16 h.highest d.frameNumber.toNat % span
      · rw [hplace, Table.get?_insert_self] at hframe
        obtain rfl := Option.some.inj hframe
        exact .inr ⟨_, by simp only [hnew]; rfl, rfl, rfl⟩
      · rw [Table.get?_insert_of_ne _ _ hplace] at hframe
        exact .inl hframe

/-- A frame that is remembered was seen, on the layer that is remembered. -/
theorem observeAll_place {h : FrameHistory} {packets : List Packet} {place : Nat} {frame : Frame}
    (hframe : (h.observeAll packets).1.places.get? place = some frame) :
    h.places.get? place = some frame ∨ ∃ seen ∈ (h.observeAll packets).2,
      seen.frame = frame.number ∧ seen.layer = frame.layer := by
  induction packets generalizing h with
  | nil => exact .inl hframe
  | cons p rest ih =>
    obtain hbefore | ⟨seen, hseen, hsame⟩ := ih hframe
    · obtain hbefore | ⟨seen, hseen, hsame⟩ := observe_place _ _ _ hbefore
      · exact .inl hbefore
      · exact .inr ⟨seen, mem_observeAll_cons.mpr (.inl hseen), hsame⟩
    · exact .inr ⟨seen, mem_observeAll_cons.mpr (.inr hseen), hsame⟩

theorem layerOf?_eq_some_iff {h : FrameHistory} {number : Nat} {layer : Layer} :
    h.layerOf? number = some layer ↔ h.places.get? (number % span) = some ⟨number, layer⟩ := by
  simp only [layerOf?, at?, Option.map_eq_some_iff, Option.filter_eq_some_iff, beq_iff_eq]
  constructor
  · rintro ⟨frame, ⟨hframe, rfl⟩, rfl⟩
    exact hframe
  · intro hframe
    exact ⟨_, ⟨hframe, rfl⟩, rfl⟩

theorem exists_seen {packets : List Packet} {number : Nat} {layer : Layer}
    (hlayer : (empty.observeAll packets).1.layerOf? number = some layer) :
    ∃ seen ∈ (empty.observeAll packets).2, seen.frame = number ∧ seen.layer = layer :=
  (observeAll_place (layerOf?_eq_some_iff.mp hlayer)).resolve_left (by rintro ⟨⟩)

/-- A receiver that has a layer switches at the start of a frame of the target's spatial index, when
each frame that one refers to is remembered, within the present layer and not above the target's
spatial index. -/
theorem isSwitchPoint_some_iff {h : FrameHistory} {seen : Sighting} {c t : Layer} :
    h.isSwitchPoint seen (some c) t ↔
      seen.startOfFrame ∧ seen.unresolved = false ∧ seen.layer.spatial = t.spatial ∧
        ∀ frame ∈ seen.references, ∃ l, h.layerOf? frame = some l ∧ l.fitsWithin c ∧
          l.spatial ≤ t.spatial := by
  have hwithin (l : Layer) : l.spatial ≤ min c.spatial t.spatial ∧ l.temporal ≤ c.temporal ↔
      l.fitsWithin c ∧ l.spatial ≤ t.spatial := by
    rw [Layer.fitsWithin_iff, Std.le_min_iff, and_right_comm]
  unfold isSwitchPoint
  split
  · rename_i hgate
    simp only [Bool.false_eq_true, false_iff]
    rintro ⟨hstart, hresolved, -⟩
    simp [hstart, hresolved] at hgate
  · rename_i hgate
    have hyes : seen.startOfFrame = true ∧ seen.unresolved = false := by
      simpa [Bool.or_eq_true] using hgate
    simp only [hyes, Bool.and_eq_true, beq_iff_eq, List.all_eq_true, Option.any_eq_true,
      decide_eq_true_eq, hwithin, true_and]

/-- A sighting is resolved if no distance leads before the first number; then each distance leads to
a reference. -/
theorem sighting_resolved {number : Nat} {layer : Layer} {start : Bool} {ds : List UInt16}
    (h : (sighting number layer start ds).unresolved = false) :
    (∀ diff ∈ ds, diff.toNat ≤ number) ∧
      (sighting number layer start ds).references = ds.map (number - ·.toNat) := by
  have hall : ∀ diff ∈ ds, diff.toNat ≤ number := by simpa [sighting] using h
  refine ⟨hall, ?_⟩
  rw [sighting, List.filter_eq_self.mpr (by simpa using hall)]

/-- Each frame that a switch point refers to lies in the stream, was seen, and is remembered within
the present layer and within the target's spatial index. -/
theorem switch_references_reach {packets : List Packet} {seen : Sighting} {c t : Layer}
    (hseen : seen ∈ (empty.observeAll packets).2)
    (hpoint : (empty.observeAll packets).1.isSwitchPoint seen (some c) t) :
    ∃ p ∈ packets, ∃ ds, diffs p.graph p.layer p.descriptor = .ok ds ∧ seen.layer = p.layer ∧
      seen.references = ds.map (seen.frame - ·.toNat) ∧
      ∀ diff ∈ ds, diff.toNat ≤ seen.frame ∧
        ∃ l, (empty.observeAll packets).1.layerOf? (seen.frame - diff.toNat) = some l ∧
          (∃ earlier ∈ (empty.observeAll packets).2,
            earlier.frame = seen.frame - diff.toNat ∧ earlier.layer = l) ∧
          l.fitsWithin c ∧ l.spatial ≤ t.spatial ∧
          (l.fitsWithin t ↔ l.temporal ≤ t.temporal) ∧
          (c.temporal ≤ t.temporal → l.fitsWithin t) := by
  obtain ⟨p, hp, ds, hds, hsaid⟩ := exists_packet hseen
  obtain ⟨-, hresolved, -, hreferences⟩ := isSwitchPoint_some_iff.mp hpoint
  have hlayer : seen.layer = p.layer := by rw [hsaid, sighting]
  rw [hsaid] at hresolved
  obtain ⟨hall, hmap⟩ := sighting_resolved hresolved
  rw [← hsaid] at hmap
  refine ⟨p, hp, ds, hds, hlayer, hmap, fun diff hdiff => ⟨hall diff hdiff, ?_⟩⟩
  obtain ⟨l, hl, hfits, hspatial⟩ :=
    hreferences (seen.frame - diff.toNat) (hmap ▸ List.mem_map_of_mem hdiff)
  refine ⟨l, hl, exists_seen hl, hfits, hspatial, ?_, Layer.fitsWithin_of_temporal hfits hspatial⟩
  rw [Layer.fitsWithin_iff]
  exact and_iff_right hspatial

/-- The start of a frame of a stream with three layers. -/
def frameStart (number : UInt16) (layer : Layer) (ds : List UInt16) : Packet :=
  { layer
    descriptor := ⟨true, true, 0, number, 0, some ds⟩
    graph :=
      { kind := .video
        codec := .vp9
        version := 1
        layers := Table.ofList
          [(⟨⟨0, 0⟩, 200000⟩, ()), (⟨⟨0, 1⟩, 300000⟩, ()), (⟨⟨1, 1⟩, 900000⟩, ())]
        templates := ∅ } }

theorem switch_references_reach_base :
    let packets := [frameStart 0 ⟨0, 0⟩ [], frameStart 1 ⟨0, 1⟩ [1], frameStart 2 ⟨0, 0⟩ [2]]
    let seen : Sighting := ⟨65538, ⟨0, 0⟩, true, [65536], false⟩
    seen ∈ (empty.observeAll packets).2 ∧
      (empty.observeAll packets).1.isSwitchPoint seen (some ⟨1, 1⟩) ⟨0, 0⟩ ∧
      ∃ p ∈ packets, ∃ ds, diffs p.graph p.layer p.descriptor = .ok ds ∧ seen.layer = p.layer ∧
        seen.references = ds.map (seen.frame - ·.toNat) ∧
        ∀ diff ∈ ds, diff.toNat ≤ seen.frame ∧
          ∃ l, (empty.observeAll packets).1.layerOf? (seen.frame - diff.toNat) = some l ∧
            (∃ earlier ∈ (empty.observeAll packets).2,
              earlier.frame = seen.frame - diff.toNat ∧ earlier.layer = l) ∧
            l.fitsWithin ⟨1, 1⟩ ∧ l.spatial ≤ 0 ∧ (l.fitsWithin ⟨0, 0⟩ ↔ l.temporal ≤ 0) ∧
            ((1 : UInt8) ≤ 0 → l.fitsWithin ⟨0, 0⟩) := by
  intro packets seen
  have hseen : seen ∈ (empty.observeAll packets).2 := by decide +kernel
  have hpoint : (empty.observeAll packets).1.isSwitchPoint seen (some ⟨1, 1⟩) ⟨0, 0⟩ := by
    decide +kernel
  exact ⟨hseen, hpoint, switch_references_reach hseen hpoint⟩

/-- From S1T1 to S0T0 at a frame that refers to one of S0T1, which is not within the target. -/
theorem switch_reference_beyond_target :
    let packets := [frameStart 0 ⟨0, 0⟩ [], frameStart 1 ⟨0, 1⟩ [1], frameStart 2 ⟨0, 0⟩ [1]]
    let seen : Sighting := ⟨65538, ⟨0, 0⟩, true, [65537], false⟩
    seen ∈ (empty.observeAll packets).2 ∧
      (empty.observeAll packets).1.isSwitchPoint seen (some ⟨1, 1⟩) ⟨0, 0⟩ ∧
      (empty.observeAll packets).1.layerOf? 65537 = some ⟨0, 1⟩ ∧
      ¬(⟨0, 1⟩ : Layer).fitsWithin ⟨0, 0⟩ := by
  decide +kernel

end FrameHistory

end MediaRelay
