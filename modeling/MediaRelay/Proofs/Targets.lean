import MediaRelay.Proofs.Descent
import MediaRelay.Proofs.Versions

/-!
What targets refer to. A downlink knows the version of its stream's graph, and the layers that it
gets or waits for are layers of that graph (`Downlink.Refers`), whatever feedback, ticks, packets
and negotiations come in whatever order.
-/

namespace MediaRelay

/-- The layers of a target are listed in a graph, and a switch that is staged leads to another
spatial index. -/
structure Target.Refers (g : LayerGraph) (t : Target) : Prop where
  current : ∀ layer, t.current = some layer → ∃ s ∈ g.listed, s.layer = layer
  pending : ∀ layer, t.pending = some layer → ∃ s ∈ g.listed, s.layer = layer
  apart : ∀ c p, t.current = some c → t.pending = some p → c.spatial ≠ p.spatial

namespace Target.Refers

variable {g : LayerGraph} {t : Target}

theorem none (g : LayerGraph) : Target.none.Refers g := ⟨nofun, nofun, nofun⟩

/-- Nothing is staged. -/
theorem settled {layer : Layer} (hlayer : ∃ s ∈ g.listed, s.layer = layer) :
    Target.Refers g ⟨some layer, .none⟩ :=
  ⟨fun _ h => Option.some.inj h ▸ hlayer, nofun, nofun⟩

theorem aim (h : t.Refers g) {layer : Layer} (haim : t.aim = some layer) :
    ∃ s ∈ g.listed, s.layer = layer := by
  obtain hpending | ⟨-, hcurrent⟩ := Option.or_eq_some_iff.mp haim
  · exact h.pending layer hpending
  · exact h.current layer hcurrent

theorem pursue (h : t.Refers g) {layer : Layer} (hlayer : ∃ s ∈ g.listed, s.layer = layer) :
    (t.pursue layer).1.Refers g := by
  unfold Target.pursue
  split
  · rename_i hcurrent
    refine ⟨fun c hc => ?_, fun _ hp => Option.some.inj hp ▸ hlayer, fun c _ hc => ?_⟩
    all_goals cases hcurrent.symm.trans hc
  rename_i current hcurrent
  split
  · exact ⟨h.current, nofun, nofun⟩
  split
  · exact .settled hlayer
  split
  · exact h
  · rename_i hspatial _
    refine ⟨h.current, fun _ hp => Option.some.inj hp ▸ hlayer, fun c p hc hp => ?_⟩
    obtain rfl := Option.some.inj (hcurrent.symm.trans hc)
    obtain rfl := Option.some.inj hp
    exact hspatial

end Target.Refers

/-- Without layers there is nothing to get and nothing to wait for. -/
theorem Target.Refers.eq_none {g : LayerGraph} {t : Target} (h : t.Refers g)
    (hempty : g.listed = []) : t = .none := by
  have habsent (layer : Layer) : ¬∃ s ∈ g.listed, s.layer = layer := by
    rw [hempty]
    rintro ⟨_, hs, -⟩
    cases hs
  obtain ⟨current, pending⟩ := t
  cases current with
  | some layer => exact absurd (h.current layer rfl) (habsent layer)
  | none =>
    cases pending with
    | some layer => exact absurd (h.pending layer rfl) (habsent layer)
    | none => rfl

theorem LayerGraph.IsOffered.listed_eq_nil {g : LayerGraph} (hg : g.IsOffered)
    (hkind : g.kind.isLayered = false) : g.listed = [] := by
  obtain ⟨kind, offer, version, hok⟩ := hg
  obtain ⟨⟨-, hrest⟩, rfl⟩ := ofOffer_eq_ok_iff.mp hok
  split at hrest
  · rename_i hlayered
    cases hkind.symm.trans hlayered
  · exact Offer.listed_of_nil hrest.1

variable {F : Type} [Arithmetic F]

omit [Arithmetic F] in
/-- The layers that targets refer to are those of a graph. -/
structure Downlink.Refers (g : LayerGraph) (d : Downlink F) : Prop where
  version : d.graphVersion = g.version
  target : d.target.Refers g

namespace Downlink

variable {d : Downlink F} {h : Hysteresis F} {g : LayerGraph}

theorem desired_listed {estimate : Nat} {reference : Option Layer} {layer : Layer}
    (hlayer : h.desired g estimate reference = some layer) : ∃ s ∈ g.listed, s.layer = layer := by
  rw [Hysteresis.desired_eq] at hlayer
  obtain ⟨s, hs, rfl⟩ := Option.map_eq_some_iff.mp hlayer
  exact ⟨s, Hysteresis.choice_listed hs, rfl⟩

@[simp] theorem retarget_graphVersion (d : Downlink F) (h : Hysteresis F) (g : LayerGraph) :
    (d.retarget h g).1.graphVersion = d.graphVersion := by
  unfold retarget
  split <;> rfl

theorem Refers.retarget (hd : d.Refers g) (h : Hysteresis F) : (d.retarget h g).1.Refers g := by
  refine ⟨(d.retarget_graphVersion h g).trans hd.version, ?_⟩
  unfold Downlink.retarget
  split
  · exact hd.target
  · rename_i layer hlayer
    exact hd.target.pursue (desired_listed hlayer)

theorem Refers.aimAt (hd : d.Refers g) (h : Hysteresis F) : (d.aimAt h g).Refers g := by
  unfold Downlink.aimAt
  split
  · exact hd.retarget h
  · exact hd

omit [Arithmetic F] in
theorem Refers.switchAt (hd : d.Refers g) (history : FrameHistory) (seen : Sighting) :
    (d.switchAt history seen).Refers g := by
  unfold Downlink.switchAt
  split
  · rename_i layer hpending
    split
    · exact ⟨hd.version, .settled (hd.target.pending layer hpending)⟩
    · exact hd
  · exact hd

omit [Arithmetic F] in
theorem Refers.offer (hd : d.Refers g) (layer : Layer) (sequence : UInt32) (size : Nat)
    (now : Time) : (d.offer layer sequence size now).1.Refers g := by
  unfold Downlink.offer
  split
  · exact ⟨hd.version, hd.target⟩
  · exact ⟨hd.version, hd.target⟩

theorem Refers.passed {r : Room F} {datagram : Datagram} {raw : Bytes} {now : Time}
    {s s' : Stream F} {receivers receivers' : List ParticipantId}
    {step : Downlink F → Downlink F × Fate}
    (hpass : Room.Passage r h datagram raw now s receivers s' receivers' step)
    (hd : d.Refers s.graph) : (step d).1.Refers s.graph := by
  cases hpass with
  | audio _ => exact ⟨hd.version, hd.target⟩
  | frame _ history seen _ _ _ => exact ((hd.aimAt h).switchAt history seen).offer _ _ _ _
  | repair _ => exact hd.offer _ _ _ _

theorem refers_inductive (settings : Settings F) :
    Downlink.Inductive settings fun g d => d.Refers g where
  start g _ _ _ := ⟨rfl, .none g⟩
  resetLayers _ g' _ _ _ := ⟨rfl, .none g'⟩
  passed _ _ _ _ _ _ _ _ _ _ _ hpass hd := hd.passed hpass
  adapted g link now body link' _ hintake hd := by
    have htaken : link'.Refers g := by
      cases hintake with
      | report _ => exact ⟨hd.version, hd.target⟩
      | estimate _ => exact ⟨hd.version, hd.target⟩
    exact htaken.retarget settings.hysteresis
  ticked g link now _ hd :=
    Refers.retarget (d := link.tick now) ⟨hd.version, hd.target⟩ settings.hysteresis

end Downlink

namespace Relay

/-- In every run, the versions handed out in a room are 1, 2, 3 and so on, no two streams of a room
share one, and each downlink refers to the graph of its stream; one for audio has no target. -/
theorem run_targets_refer (settings : Settings F) (inputs : List (Time × Input)) :
    let r := (start settings).run inputs
    (∀ room, versionsGiven room (start settings) [] inputs =
      List.range' 1 (versionCount r room)) ∧
    (∀ room a b s t, r.stream? room a = some s → r.stream? room b = some t →
      s.graph.version = t.graph.version → a = b) ∧
    ∀ room id s p link, r.stream? room id = some s → s.links.get? p = some link →
      link.Refers s.graph ∧ (id.kind = .audio → link.target = .none) := by
  intro r
  have hr : r.Reachable := (Reachable.start settings).run inputs
  refine ⟨fun room => (Reachable.start settings).versionsGiven_eq room inputs, ?_, ?_⟩
  · intro room a b s t hs ht
    obtain ⟨within, hroom, hs⟩ := stream?_eq_some_iff.mp hs
    obtain ⟨within', hroom', ht⟩ := stream?_eq_some_iff.mp ht
    obtain rfl := Option.some.inj (hroom.symm.trans hroom')
    exact (hr.numbered hroom).distinct a b s t hs ht
  · intro room id s p link hs hl
    have hrefers := hr.link_invariant (Downlink.refers_inductive r.settings) hs hl
    refine ⟨hrefers, fun haudio => hrefers.target.eq_none ?_⟩
    refine (hr.graph_isOffered hs).listed_eq_nil ?_
    obtain ⟨within, hroom, hs⟩ := stream?_eq_some_iff.mp hs
    rw [((hr.sound room within hroom).streams id s hs).2.kind, haudio]
    rfl

end Relay

end MediaRelay
