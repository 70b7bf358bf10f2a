import MediaRelay.Proofs.Selection
import MediaRelay.Proofs.Switching

/-!
Targets without feedback. In every reachable state the target of a downlink is what would be chosen
again for the present estimate (`Downlink.Settled`). As long as nothing is heard from the receiver
the estimate can only fall, and the target falls with it (`Relay.Reachable.target_descends`).
-/

namespace MediaRelay

variable {F : Type} [Arithmetic F]

theorem Settings.checkEstimator_of_check {settings : Settings F} (h : settings.check = .ok ()) :
    checkEstimator settings.estimator = .ok () := by
  simp only [check, Guard.when_eq_ok, Guard.bind_eq_ok] at h
  obtain ⟨-, -, _, hestimator, -⟩ := h
  exact hestimator

namespace Downlink

variable {d d' : Downlink F}

@[simp] theorem retarget_estimator (d : Downlink F) (h : Hysteresis F) (g : LayerGraph) :
    (d.retarget h g).1.estimator = d.estimator := by
  unfold retarget
  split <;> rfl

@[simp] theorem aimAt_estimator (d : Downlink F) (h : Hysteresis F) (g : LayerGraph) :
    (d.aimAt h g).estimator = d.estimator := by
  unfold aimAt
  split
  · exact d.retarget_estimator h g
  · rfl

omit [Arithmetic F] in
@[simp] theorem switchAt_estimator (d : Downlink F) (history : FrameHistory) (seen : Sighting) :
    (d.switchAt history seen).estimator = d.estimator := by
  unfold switchAt
  split
  · split <;> rfl
  · rfl

omit [Arithmetic F] in
@[simp] theorem offer_estimator (d : Downlink F) (layer : Layer) (sequence : UInt32) (size : Nat)
    (now : Time) : (d.offer layer sequence size now).1.estimator = d.estimator := by
  unfold offer
  split <;> rfl

end Downlink

theorem Target.pursue_aim (t : Target) (layer : Layer) :
    (t.pursue layer).1.aim = some layer := by
  unfold pursue
  split
  · rfl
  rename_i current hcurrent
  split
  · rename_i heq
    simp [aim, hcurrent, heq]
  split
  · rfl
  split
  · rename_i hpending
    simp [aim, hpending]
  · rfl

namespace Downlink

variable {d d' : Downlink F} {h : Hysteresis F} {g : LayerGraph}

theorem retarget_aim (d : Downlink F) (h : Hysteresis F) (g : LayerGraph) :
    (d.retarget h g).1.target.aim = (h.desired g d.estimate d.target.aim).or d.target.aim := by
  unfold retarget
  split
  · rename_i hnone
    rw [hnone, Option.none_or]
  · rename_i layer hlayer
    rw [hlayer, Option.some_or]
    exact d.target.pursue_aim layer

omit [Arithmetic F] in
/-- A switch commits to what was aimed at. -/
theorem switchAt_aim (d : Downlink F) (history : FrameHistory) (seen : Sighting) :
    (d.switchAt history seen).target.aim = d.target.aim := by
  unfold switchAt
  split
  · rename_i layer hpending
    split
    · simp [Target.aim, hpending]
    · rfl
  · rfl

/-- The layer aimed at is negotiated, and what would be chosen from it again. -/
def Settled (h : Hysteresis F) (g : LayerGraph) (d : Downlink F) : Prop :=
  ∀ layer, d.target.aim = some layer →
    ∃ s, g.spec? layer = some s ∧ h.choice g d.estimate (some s) = some s

theorem Settled.of_same (hd : d.Settled h g) (haim : d'.target.aim = d.target.aim)
    (hestimator : d'.estimator = d.estimator) : d'.Settled h g := by
  unfold Settled estimate
  rw [haim, hestimator]
  exact hd

/-- Adapting settles a target, whatever the estimate has become. -/
theorem settled_retarget (hord : h.Ordered) (hg : g.IsOffered)
    (haim : ∀ layer, d.target.aim = some layer → ∃ s, g.spec? layer = some s) :
    (d.retarget h g).1.Settled h g := by
  intro layer hlayer
  rw [retarget_aim] at hlayer
  rw [estimate, retarget_estimator]
  cases hchoice : h.choice g d.estimate (d.target.aim.bind g.spec?) with
  | none =>
    rw [Hysteresis.desired_eq, hchoice, Option.map_none, Option.none_or] at hlayer
    obtain ⟨s, hs⟩ := haim layer hlayer
    obtain ⟨t, ht⟩ := h.exists_choice d.estimate (LayerGraph.mem_of_spec? hs).1
      (d.target.aim.bind g.spec?)
    rw [hchoice] at ht
    cases ht
  | some s =>
    rw [Hysteresis.desired_eq, hchoice, Option.map_some, Option.some_or] at hlayer
    exact ⟨s, hg.spec?_eq_some_iff.mpr ⟨Hysteresis.choice_listed hchoice, Option.some.inj hlayer⟩,
      hord.choice_idem hchoice⟩

theorem Settled.spec (hd : d.Settled h g) (layer : Layer) (haim : d.target.aim = some layer) :
    ∃ s, g.spec? layer = some s := by
  obtain ⟨s, hs, -⟩ := hd layer haim
  exact ⟨s, hs⟩

end Downlink

namespace Room.Passage

variable {r : Room F} {h : Hysteresis F} {d : Datagram} {raw : Bytes} {now : Time}
  {s s' : Stream F} {receivers receivers' : List ParticipantId}
  {step : Downlink F → Downlink F × Fate}

theorem step_estimator (hp : Passage r h d raw now s receivers s' receivers' step)
    (link : Downlink F) : (step link).1.estimator = link.estimator := by
  cases hp with
  | audio _ => rfl
  | frame _ _ _ _ _ _ => simp
  | repair _ => simp

/-- A packet moves no target but that of a fresh downlink. -/
theorem step_aim (hp : Passage r h d raw now s receivers s' receivers' step) (link : Downlink F) :
    (step link).1.target.aim = link.target.aim ∨
      link.target = .none ∧ (step link).1.target.aim = (link.retarget h s.graph).1.target.aim := by
  cases hp with
  | audio _ => exact .inl rfl
  | repair _ => exact .inl (congrArg Target.aim (link.offer_target _ _ _ _))
  | frame _ history seen _ _ _ =>
    rw [Downlink.offer_target, Downlink.switchAt_aim]
    unfold Downlink.aimAt
    split
    · rename_i hfresh
      exact .inr ⟨hfresh, rfl⟩
    · exact .inl rfl

end Room.Passage

theorem Room.Intake.estimator {link link' : Downlink F} {now : Time} {body : Feedback.Body}
    (h : Intake link now body link') :
    (∃ ds, link'.estimator = link.estimator.ingest ds now) ∨
      ∃ rate, link'.estimator = link.estimator.adopt rate now := by
  cases h with
  | report report => exact .inl ⟨_, rfl⟩
  | estimate rate => exact .inr ⟨rate.toNat, rfl⟩

namespace Downlink

variable {settings : Settings F}

theorem settled_inductive (hord : settings.hysteresis.Ordered) :
    Downlink.Inductive settings fun g d => d.Settled settings.hysteresis g where
  start _ _ _ _ := nofun
  resetLayers _ _ _ _ _ := nofun
  passed r d raw now s receivers s' receivers' step link hg hpass hd := by
    obtain haim | ⟨hfresh, haim⟩ := hpass.step_aim link
    · exact hd.of_same haim (hpass.step_estimator link)
    · have hnone : link.target.aim = none := by rw [hfresh]; rfl
      refine (settled_retarget (d := link) hord hg ?_).of_same haim
        ((hpass.step_estimator link).trans (link.retarget_estimator _ _).symm)
      rw [hnone]
      exact nofun
  adapted g link now body link' hg hintake hd :=
    settled_retarget hord hg (hintake.target ▸ hd.spec)
  ticked g link now hg hd := settled_retarget (d := link.tick now) hord hg hd.spec

/-- The estimator is one of the settings, and its estimate is in their range. -/
def Estimates (settings : Settings F) (d : Downlink F) : Prop :=
  d.estimator.settings = settings.estimator ∧ d.estimator.InRange

theorem estimates_inductive (hshrinks : Arithmetic.Shrinks F)
    (hsettings : settings.estimator.Ordered) :
    Downlink.Inductive settings fun _ d => d.Estimates settings where
  start _ _ _ _ := ⟨rfl, Estimator.Settings.clamp_bounds hsettings.range _⟩
  resetLayers _ _ _ _ hd := hd
  passed _ _ _ _ _ _ _ _ _ link _ hpass hd := by
    rwa [Estimates, hpass.step_estimator link]
  adapted g link now body link' _ hintake hd := by
    rw [Estimates, retarget_estimator]
    have hrange := hd.1 ▸ hsettings.range
    obtain ⟨ds, heq⟩ | ⟨rate, heq⟩ := hintake.estimator
    · rw [heq]
      exact ⟨(link.estimator.ingest_settings ds now).1.trans hd.1,
        Estimator.ingest_inRange hrange hd.2 ds now⟩
    · rw [heq]
      exact ⟨hd.1, Estimator.Settings.clamp_bounds hrange rate⟩
  ticked g link now _ hd := by
    rw [Estimates, retarget_estimator]
    exact ⟨(link.estimator.tick_settings now).1.trans hd.1,
      Estimator.tick_inRange hshrinks (hd.1 ▸ hsettings) hd.2 now⟩

/-- The estimate of `d'` is not above that of `d`, and neither is the rate of its target. -/
structure Descends (g : LayerGraph) (d d' : Downlink F) : Prop where
  estimate : d'.estimate ≤ d.estimate
  target : ∀ layer, d.target.aim = some layer → ∃ layer' s s', d'.target.aim = some layer' ∧
    g.spec? layer = some s ∧ g.spec? layer' = some s' ∧ s'.rate ≤ s.rate

theorem Settled.descends {h : Hysteresis F} {g : LayerGraph} {d d' : Downlink F}
    (hd : d.Settled h g) (haim : d'.target.aim = d.target.aim)
    (hestimator : d'.estimator = d.estimator) : Descends g d d' := by
  refine ⟨Nat.le_of_eq (congrArg Estimator.estimate hestimator), fun layer hlayer => ?_⟩
  obtain ⟨s, hs, -⟩ := hd layer hlayer
  exact ⟨layer, s, s, haim.trans hlayer, hs, hs, Nat.le_refl _⟩

omit [Arithmetic F] in
theorem Descends.trans {g : LayerGraph} {d d' d'' : Downlink F} (h : Descends g d d')
    (h' : Descends g d' d'') : Descends g d d'' := by
  refine ⟨h'.estimate.trans h.estimate, fun layer hlayer => ?_⟩
  obtain ⟨layer', s, s', hlayer', hs, hs', hle⟩ := h.target layer hlayer
  obtain ⟨layer'', t, s'', hlayer'', ht, hs'', hle'⟩ := h'.target layer' hlayer'
  cases hs'.symm.trans ht
  exact ⟨layer'', s, s'', hlayer'', hs, hs'', hle'.trans hle⟩

/-- A tick lowers the estimate or leaves it, and the target follows. -/
theorem Settled.descends_tick (hshrinks : Arithmetic.Shrinks F) {g : LayerGraph} {d : Downlink F}
    (hord : settings.hysteresis.Ordered) (hsettings : settings.estimator.Ordered)
    (hg : g.IsOffered) (hd : d.Settled settings.hysteresis g) (he : d.Estimates settings)
    (now : Time) : Descends g d ((d.tick now).retarget settings.hysteresis g).1 := by
  have hlower : (d.tick now).estimate ≤ d.estimate := by
    have hfloor := he.2.1
    obtain ⟨-, heq⟩ | ⟨-, estimate, heq, -, hhigh⟩ :=
      Estimator.tick_cases hshrinks (he.1 ▸ hsettings : d.estimator.settings.Ordered) now
    · exact Nat.le_of_eq (congrArg Estimator.estimate heq)
    · have hticked : (d.tick now).estimate = estimate := congrArg Estimator.estimate heq
      have hbefore : d.estimate = d.estimator.estimate := rfl
      omega
  refine ⟨?_, fun layer hlayer => ?_⟩
  · rw [estimate, retarget_estimator]
    exact hlower
  · obtain ⟨s, hs, hchoice⟩ := hd layer hlayer
    have hmem := (LayerGraph.mem_of_spec? hs).1
    obtain ⟨s', hs'⟩ := settings.hysteresis.exists_choice (d.tick now).estimate hmem (some s)
    have haim : (d.tick now).target.aim = some layer := hlayer
    refine ⟨s'.layer, s, s', ?_, hs, ?_, hord.choice_mono hlower hmem hchoice hs'⟩
    · rw [retarget_aim, haim, Hysteresis.desired_eq, Option.bind_some, hs, hs', Option.map_some,
        Option.some_or]
    · refine hg.spec?_eq_some_iff.mpr ⟨Hysteresis.choice_mem ?_ hs', rfl⟩
      rintro r ⟨⟩
      exact hmem

end Downlink

namespace Relay

/-- An input that neither gives the stream a new graph nor tells what rate the receiver can take. -/
def Unheard (r : Relay F) (now : Time) (room : RoomId) (id : StreamId) (p : ParticipantId)
    (input : Input) : Prop :=
  ¬ReportsRate r now room id p input ∧
    ∀ offer, input = .event ⟨room, .negotiate id offer⟩ →
      (r.apply ⟨room, .negotiate id offer⟩ now).2 ≠ .ok ()

/-- A run of such inputs that the downlink outlasts. -/
def Silence (room : RoomId) (id : StreamId) (p : ParticipantId) :
    Relay F → List (Time × Input) → Prop
  | _, [] => True
  | r, (now, input) :: rest => Unheard r now room id p input ∧
      (∃ link, (r.step now input).1.link? room id p = some link) ∧
      Silence room id p (r.step now input).1 rest

namespace Reachable

variable {r : Relay F} {room : RoomId} {id : StreamId} {p : ParticipantId} {s : Stream F}
  {link : Downlink F}

theorem descends_step (h : r.Reachable) (hshrinks : Arithmetic.Shrinks F)
    (hord : r.settings.hysteresis.Ordered) (hsettings : r.settings.estimator.Ordered)
    {now : Time} {input : Input} (hunheard : Unheard r now room id p input) {s' : Stream F}
    {link' : Downlink F} (hs : r.stream? room id = some s) (hl : s.links.get? p = some link)
    (hs' : (r.step now input).1.stream? room id = some s') (hl' : s'.links.get? p = some link') :
    s'.graph = s.graph ∧ link.Descends s.graph link' := by
  have hsettled := h.link_invariant (Downlink.settled_inductive hord) hs hl
  have hstays (hsame : link' = link) : link.Descends s.graph link' :=
    hsettled.descends (by rw [hsame]) (by rw [hsame])
  cases h.stream_step now input hs hs' with
  | rewired _ _ hsame => exact ⟨hsame.graph, hstays (hsame.links p link link' hl hl')⟩
  | renegotiated offer graph hok => exact absurd hok (hunheard.2 offer rfl)
  | noted raw source history => exact ⟨rfl, hstays (Option.some.inj (hl'.symm.trans hl))⟩
  | passed raw source d out within receivers t receivers' step hdecode hroom hid hok hn hpass =>
    refine ⟨hpass.same_graph, ?_⟩
    rw [hpass.link_get? hn, hl] at hl'
    split at hl'
    · obtain rfl := Option.some.inj hl'
      obtain haim | ⟨hfresh, -⟩ := hpass.step_aim link
      · exact hsettled.descends haim (hpass.step_estimator link)
      · refine ⟨Nat.le_of_eq (congrArg Estimator.estimate (hpass.step_estimator link)), ?_⟩
        rw [hfresh]
        exact nofun
    · exact hstays (Option.some.inj hl').symm
  | adapted raw source d out message before after _ hdecode hroom hmessage hid hok _ hintake =>
    refine ⟨rfl, ?_⟩
    by_cases hp : p = d.header.sender
    · exact absurd ⟨raw, source, d, message, out, rfl, hdecode, hroom, hp.symm, hmessage, hid,
        hintake.tellsRate, hok⟩ hunheard.1
    · rw [Stream.asked, Table.get?_insert_of_ne _ _ hp, hl] at hl'
      exact hstays (Option.some.inj hl').symm
  | ticked left isOpen hthin =>
    refine ⟨hthin.graph, ?_⟩
    rw [Stream.tick_link] at hl'
    obtain ⟨before, hbefore, rfl⟩ := Option.map_eq_some_iff.mp hl'
    obtain rfl := Option.some.inj ((hthin.links p before hbefore).symm.trans hl)
    rw [hthin.graph]
    exact hsettled.descends_tick hshrinks hord hsettings (h.graph_isOffered hs)
      (h.link_invariant (Downlink.estimates_inductive hshrinks hsettings) hs hl) now

theorem descends_run (h : r.Reachable) (hshrinks : Arithmetic.Shrinks F)
    (hord : r.settings.hysteresis.Ordered) (hsettings : r.settings.estimator.Ordered)
    (inputs : List (Time × Input)) (hsilence : Silence room id p r inputs)
    (hs : r.stream? room id = some s) (hl : s.links.get? p = some link) :
    ∃ s' link', (r.run inputs).stream? room id = some s' ∧ s'.links.get? p = some link' ∧
      s'.graph = s.graph ∧ link.Descends s.graph link' := by
  induction inputs generalizing r s link with
  | nil =>
    exact ⟨s, link, hs, hl, rfl,
      (h.link_invariant (Downlink.settled_inductive hord) hs hl).descends rfl rfl⟩
  | cons first rest ih =>
    obtain ⟨now, input⟩ := first
    obtain ⟨hunheard, ⟨link₁, hlink₁⟩, hrest⟩ := hsilence
    obtain ⟨s₁, hs₁, hl₁⟩ := link?_eq_some_iff.mp hlink₁
    obtain ⟨hgraph₁, hdescends₁⟩ :=
      h.descends_step hshrinks hord hsettings hunheard hs hl hs₁ hl₁
    have hsame := (step_settings h.sound now input).1
    obtain ⟨s', link', hs', hl', hgraph, hdescends⟩ :=
      ih (h.step now input) (hsame ▸ hord) (hsame ▸ hsettings) hrest hs₁ hl₁
    exact ⟨s', link', hs', hl', hgraph.trans hgraph₁, hdescends₁.trans (hgraph₁ ▸ hdescends)⟩

/-- While nothing is heard from a receiver, neither its estimate nor the rate of its target rises.
As the run may begin in any reachable state, this holds between any two points of it. -/
theorem target_descends (h : r.Reachable) (hshrinks : Arithmetic.Shrinks F)
    (hchecked : r.settings.check = .ok ()) (hexact : r.settings.hysteresis.IsExact)
    (inputs : List (Time × Input)) (hsilence : Silence room id p r inputs) {layer : Layer}
    (hs : r.stream? room id = some s) (hl : s.links.get? p = some link)
    (haim : link.target.aim = some layer) :
    ∃ s' link' layer' before after, (r.run inputs).stream? room id = some s' ∧
      s'.links.get? p = some link' ∧ s'.graph = s.graph ∧ link'.estimate ≤ link.estimate ∧
      link'.target.aim = some layer' ∧ s.graph.spec? layer = some before ∧
      s.graph.spec? layer' = some after ∧ after.rate ≤ before.rate := by
  have hsettings := Estimator.Settings.ordered_of_check (Settings.checkEstimator_of_check hchecked)
  obtain ⟨s', link', hs', hl', hgraph, hdescends⟩ :=
    h.descends_run hshrinks hexact.ordered hsettings inputs hsilence hs hl
  obtain ⟨layer', before, after, haim', hbefore, hafter, hle⟩ := hdescends.target layer haim
  exact ⟨s', link', layer', before, after, hs', hl', hgraph, hdescends.estimate, haim', hbefore,
    hafter, hle⟩

/-- Two late ticks, with a frame between them, bring a receiver from S1T0 back to S0T0. -/
theorem target_descends_late_ticks :
    let r := toldRate [⟨.base, 200000⟩, ⟨⟨1, 0⟩, 500000⟩] 800000
    let inputs : List (Time × Input) :=
      [(600000, .tick), (650000, .datagram (wireBytes (videoPacket 1 1 .base [1])) anyEndpoint),
        (700000, .tick)]
    Arithmetic.Shrinks Rat ∧ r.settings.check = .ok () ∧ r.settings.hysteresis.IsExact ∧
      Silence ⟨7⟩ ⟨⟨1⟩, .video⟩ ⟨2⟩ r inputs ∧
      ∃ s link, r.stream? ⟨7⟩ ⟨⟨1⟩, .video⟩ = some s ∧ s.links.get? ⟨2⟩ = some link ∧
        link.target.aim = some ⟨1, 0⟩ ∧
        ∃ s' link' layer' before after, (r.run inputs).stream? ⟨7⟩ ⟨⟨1⟩, .video⟩ = some s' ∧
          s'.links.get? ⟨2⟩ = some link' ∧ s'.graph = s.graph ∧ link'.estimate ≤ link.estimate ∧
          link'.target.aim = some layer' ∧ s.graph.spec? ⟨1, 0⟩ = some before ∧
          s.graph.spec? layer' = some after ∧ after.rate ≤ before.rate := by
  intro r inputs
  have hchecked : r.settings.check = .ok () := Guard.eq_ok_of_toOption (by decide +kernel)
  have hexact : r.settings.hysteresis.IsExact :=
    Hysteresis.isExact_rat (Guard.eq_ok_of_toOption (by decide +kernel))
  have htick (r : Relay Rat) (now : Time) : Unheard r now ⟨7⟩ ⟨⟨1⟩, .video⟩ ⟨2⟩ .tick :=
    ⟨fun ⟨_, _, _, _, _, h, _⟩ => (by cases h), fun _ h => (by cases h)⟩
  have hframe (r : Relay Rat) (now : Time) : Unheard r now ⟨7⟩ ⟨⟨1⟩, .video⟩ ⟨2⟩
      (.datagram (wireBytes (videoPacket 1 1 .base [1])) anyEndpoint) := by
    refine ⟨?_, fun _ h => (by cases h)⟩
    rintro ⟨_, _, d, _, _, h, hdecode, -, hsender, -⟩
    cases h
    have hpacket : Datagram.decode (wireBytes (videoPacket 1 1 .base [1])) =
        .ok (videoPacket 1 1 .base [1]) := Guard.eq_ok_of_toOption (by decide +kernel)
    cases hpacket.symm.trans hdecode
    cases hsender
  have hsilence : Silence ⟨7⟩ ⟨⟨1⟩, .video⟩ ⟨2⟩ r inputs :=
    ⟨htick _ _, Option.isSome_iff_exists.mp (by decide +kernel), hframe _ _,
      Option.isSome_iff_exists.mp (by decide +kernel), htick _ _,
      Option.isSome_iff_exists.mp (by decide +kernel), trivial⟩
  have haimed : (r.link? ⟨7⟩ ⟨⟨1⟩, .video⟩ ⟨2⟩).bind (·.target.aim) = some ⟨1, 0⟩ := by
    decide +kernel
  obtain ⟨link, hlink, haim⟩ := Option.bind_eq_some_iff.mp haimed
  obtain ⟨s, hs, hl⟩ := link?_eq_some_iff.mp hlink
  exact ⟨Arithmetic.shrinks_rat, hchecked, hexact, hsilence, s, link, hs, hl, haim,
    (toldRate_reachable _ _).target_descends Arithmetic.shrinks_rat hchecked hexact inputs hsilence
      hs hl haim⟩

end Reachable

end Relay

end MediaRelay
