import MediaRelay.Proofs.Switching

/-!
What a picture with all spatial indices does for a receiver that waits for a higher one. Each of its
frames refers to the frame below it only, so a step up by one can take place at the frame of the new
index; a step by more cannot, because the frame below is one that the receiver does not get
(`picture_completes_single_step`).
-/

namespace MediaRelay

variable {F : Type}

/-- The first `k` of `n + 1` frames of a picture are noted, frame `j` of it as `number + j` and with
layer `j`; the others are still to come. On the wire the picture starts with number `first`. -/
structure FrameHistory.InPicture (h : FrameHistory) (first : UInt16) (number n k : Nat) : Prop where
  wire : number % Serial.turn 16 = first.toNat
  near : h.highest.getD 0 ≤ number + Serial.turn 16 / 2
  next : Serial.extend 16 h.highest (first + .ofNat k).toNat = number + k
  noted : ∀ j < k, ∃ layer, h.layerOf? (number + j) = some layer ∧
    layer.spatial.toNat = j ∧ layer.temporal = 0
  ahead : ∀ j, k ≤ j → j ≤ n → h.layerOf? (number + j) = none

namespace FrameHistory.InPicture

variable {h : FrameHistory} {first : UInt16} {number n k : Nat}

theorem start (hg : h.Grounded)
    (hnew : ∀ j ≤ n, h.layerOf? (Serial.extend 16 h.highest first.toNat + j) = none) :
    h.InPicture first (Serial.extend 16 h.highest first.toNat) n 0 := by
  have hfirst : first.toNat < Serial.turn 16 := first.toNat_lt
  have hwire : first.toNat % Serial.turn 16 = first.toNat := Nat.mod_eq_of_lt hfirst
  refine ⟨?_, ?_, by simp, nofun, fun j _ hj => hnew j hj⟩
  · cases hh : h.highest with
    | none => simp [Serial.extend, hwire]
    | some high => rw [(Serial.extend_near _ (hg.turned high hh)).1, hwire]
  · cases hh : h.highest with
    | none => simp
    | some high => exact (Serial.extend_near _ (hg.turned high hh)).2.1

theorem step (hp : h.InPicture first number n k) (hk : k ≤ n) (hn : n < span) {layer : Layer}
    (hspatial : layer.spatial.toNat = k) (htemporal : layer.temporal = 0) :
    (h.withFrame (number + k) layer).InPicture first number n (k + 1) := by
  have hother {j : Nat} (hj : j ≠ k) (hjn : j ≤ n) :
      (h.withFrame (number + k) layer).layerOf? (number + j) = h.layerOf? (number + j) := by
    refine layerOf?_withFrame_of_ne _ _ ?_
    unfold span at hn ⊢
    omega
  have hnear := hp.near
  have hwire := hp.wire
  refine ⟨hp.wire, ?_, ?_, fun j hj => ?_, fun j hj hjn => ?_⟩
  · simp only [withFrame, Serial.raise, Option.getD_some, Nat.max_le]
    unfold span at hn
    simp only [Serial.turn, Nat.reduceShiftLeft] at hnear ⊢
    omega
  · refine Serial.extend_eq ?_ ?_ ?_
    all_goals simp only [Serial.raise, Serial.turn, Nat.reduceShiftLeft] at hnear hwire ⊢
    · simp only [UInt16.toNat_add, UInt16.toNat_ofNat']
      omega
    · omega
    · omega
  · by_cases hjk : j = k
    · subst hjk
      exact ⟨layer, layerOf?_withFrame_self _ _ _, hspatial, htemporal⟩
    · rw [hother hjk (by omega)]
      exact hp.noted j (by omega)
  · rw [hother (by omega) hjn]
    exact hp.ahead j (by omega) hjn

end FrameHistory.InPicture

/-- The distances of frame `k` of a picture: none for the first, and one back for the others. -/
def FrameHistory.OneBack (k : Nat) (ds : List UInt16) : Prop :=
  if k = 0 then ds = [] else ds ≠ [] ∧ ∀ diff ∈ ds, diff = 1

/-- Distances of one lead to the frame before. -/
theorem FrameHistory.sighting_of_ones (layer : Layer) (start : Bool) (number : Nat)
    (hnumber : 0 < number) {ds : List UInt16} (hone : ∀ diff ∈ ds, diff = 1) :
    (sighting number layer start ds).references = ds.map (fun _ => number - 1) ∧
      (sighting number layer start ds).unresolved = false := by
  have hreach (diff : UInt16) (hdiff : diff ∈ ds) : diff.toNat ≤ number := by
    rw [hone diff hdiff]
    exact hnumber
  have hall : ds.filter (·.toNat ≤ number) = ds :=
    List.filter_eq_self.mpr fun diff hdiff => decide_eq_true (hreach diff hdiff)
  refine ⟨?_, List.any_eq_false.mpr fun diff hdiff => ?_⟩
  · simp only [sighting, hall]
    exact List.map_congr_left fun diff hdiff => by rw [hone diff hdiff]; rfl
  · have := hreach diff hdiff
    simp only [decide_eq_true_eq]
    omega

namespace FrameHistory.InPicture

variable {h : FrameHistory} {first : UInt16} {number n k : Nat}

/-- A step up can take place at the frame of the target's spatial index, and at no other. The frame
it refers to is the one below, which the receiver gets if the step is by one. -/
theorem isSwitchPoint_iff (hp : h.InPicture first number n k) {layer current target : Layer}
    {ds : List UInt16} (hspatial : layer.spatial.toNat = k) (hds : OneBack k ds)
    (hup : current.spatial < target.spatial) :
    (h.withFrame (number + k) layer).isSwitchPoint (sighting (number + k) layer true ds)
        (some current) target ↔
      target.spatial.toNat = k ∧ target.spatial.toNat = current.spatial.toNat + 1 := by
  have hup : current.spatial.toNat < target.spatial.toNat := hup
  unfold OneBack at hds
  split at hds
  · -- the first frame has the lowest spatial index, which is not above another
    have hne : layer.spatial ≠ target.spatial := by
      intro heq
      have := congrArg UInt8.toNat heq
      omega
    have hno : ¬(target.spatial.toNat = k ∧ target.spatial.toNat = current.spatial.toNat + 1) := by
      omega
    simp [isSwitchPoint, sighting, hds, hne, hno]
  · obtain ⟨hsome, hone⟩ := hds
    obtain ⟨below, hbelow, hlayer, htemporal⟩ := hp.noted (k - 1) (by omega)
    have hkept : (h.withFrame (number + k) layer).layerOf? (number + k - 1) = some below := by
      rw [show number + k - 1 = number + (k - 1) by omega, ← hbelow]
      refine layerOf?_withFrame_of_ne _ _ ?_
      unfold span
      omega
    obtain ⟨hreferences, hresolved⟩ := sighting_of_ones layer true (number + k) (by omega) hone
    have hmin : min current.spatial target.spatial = current.spatial :=
      if_pos (UInt8.le_iff_toNat_le.mpr (by omega))
    have hwithin : (below.spatial ≤ min current.spatial target.spatial ∧
        below.temporal ≤ current.temporal) ↔ k - 1 ≤ current.spatial.toNat := by
      rw [htemporal, hmin, UInt8.le_iff_toNat_le, hlayer]
      exact and_iff_left (UInt8.le_iff_toNat_le.mpr (Nat.zero_le _))
    have hmatch : layer.spatial = target.spatial ↔ target.spatial.toNat = k := by
      rw [← UInt8.toNat_inj, hspatial, eq_comm]
    have hreach : (ds.map fun _ => number + k - 1).all (fun frame =>
        ((h.withFrame (number + k) layer).layerOf? frame).any fun l =>
          l.spatial ≤ min current.spatial target.spatial && l.temporal ≤ current.temporal) ↔
        k - 1 ≤ current.spatial.toNat := by
      obtain ⟨diff, hdiff⟩ := List.exists_mem_of_ne_nil _ hsome
      simp only [List.all_map, List.all_eq_true, Function.comp_apply, hkept, Option.any_some,
        Bool.and_eq_true, decide_eq_true_eq, hwithin]
      exact ⟨fun hall => hall diff hdiff, fun hle _ _ => hle⟩
    have hgate : (!(sighting (number + k) layer true ds).startOfFrame ||
        (sighting (number + k) layer true ds).unresolved) = false := by
      rw [hresolved]
      rfl
    unfold isSwitchPoint
    rw [hgate, if_neg Bool.false_ne_true, hreferences, Bool.and_eq_true, hreach, beq_iff_eq]
    simp only [sighting, hmatch]
    omega

end FrameHistory.InPicture

/-- The target of a downlink of `current` that waits for `target`, once the first `k` frames of a
picture are through. -/
def Target.risen (current target : Layer) (k : Nat) : Target :=
  if target.spatial.toNat < k ∧ target.spatial.toNat = current.spatial.toNat + 1 then
    ⟨some target, .none⟩
  else ⟨some current, some target⟩

namespace Downlink

variable [Arithmetic F] {h : FrameHistory} {first : UInt16} {number n k : Nat}

theorem switchAt_risen (hp : h.InPicture first number n k) {d : Downlink F} (hyst : Hysteresis F)
    (g : LayerGraph) {layer current target : Layer} {ds : List UInt16}
    (hspatial : layer.spatial.toNat = k) (hds : FrameHistory.OneBack k ds)
    (hup : current.spatial < target.spatial) (htarget : d.target = Target.risen current target k) :
    ((d.aimAt hyst g).switchAt (h.withFrame (number + k) layer)
      (FrameHistory.sighting (number + k) layer true ds)).target =
        Target.risen current target (k + 1) := by
  have haim : d.aimAt hyst g = d := by
    refine if_neg ?_
    rw [htarget, Target.risen]
    split <;> exact nofun
  rw [haim]
  unfold switchAt
  by_cases hdone : target.spatial.toNat < k ∧ target.spatial.toNat = current.spatial.toNat + 1
  · rw [Target.risen, if_pos hdone] at htarget
    rw [htarget, Target.risen, if_pos ⟨by omega, hdone.2⟩]
    exact htarget
  · rw [Target.risen, if_neg hdone] at htarget
    simp only [htarget, Target.risen]
    by_cases hpoint : target.spatial.toNat = k ∧ target.spatial.toNat = current.spatial.toNat + 1
    · rw [if_pos ((hp.isSwitchPoint_iff hspatial hds hup).mpr hpoint),
        if_pos ⟨by omega, hpoint.2⟩]
    · rw [if_neg (mt (hp.isSwitchPoint_iff hspatial hds hup).mp hpoint), if_neg (by omega)]
      exact htarget

end Downlink

namespace Relay

variable [Arithmetic F] {r : Relay F} {room : RoomId} {id : StreamId} {p : ParticipantId}
  {s : Stream F} {link : Downlink F}

/-- Neither feedback nor a tick nor a packet of the stream; the stream, its sender and its receiver
`p` stay. -/
def Quiet (room : RoomId) (id : StreamId) (p : ParticipantId) : Input → Prop
  | .event e => e.room = room → e.act ≠ .leave id.sender ∧ e.act ≠ .leave p ∧
      e.act ≠ .unsubscribe p id ∧ ∀ offer, e.act ≠ .negotiate id offer
  | .datagram raw _ => ∀ d, Datagram.decode raw = .ok d → d.header.packetType ≠ .feedback ∧
      (d.header.room = room → d.header.stream? ≠ some id)
  | .tick => False

/-- Frame `k` of a picture, in one packet: it starts a frame of layer `k` that refers to the frame
before it only. -/
structure PicturePacket (g : LayerGraph) (room : RoomId) (id : StreamId) (first : UInt16) (k : Nat)
    (d : Datagram) : Prop where
  room : d.header.room = room
  stream : d.header.stream? = some id
  type : d.header.packetType = .video ∨ d.header.packetType = .screen
  codec : d.header.codec = g.codec
  spatial : d.header.layer.spatial.toNat = k
  temporal : d.header.layer.temporal = 0
  frame : ∃ descriptor ds, d.descriptor = some descriptor ∧ descriptor.startOfFrame = true ∧
    descriptor.frameNumber = first + .ofNat k ∧
    FrameHistory.diffs g d.header.layer descriptor = .ok ds ∧ FrameHistory.OneBack k ds

/-- The rest of a picture from frame `k` to frame `n`, among quiet inputs. -/
inductive Carries (g : LayerGraph) (room : RoomId) (id : StreamId) (p : ParticipantId)
    (first : UInt16) (n : Nat) : Nat → List (Time × Input) → Prop
  | nil : Carries g room id p first n (n + 1) []
  | quiet {k : Nat} (now : Time) {input : Input} {rest : List (Time × Input)}
      (hquiet : Quiet room id p input) (hrest : Carries g room id p first n k rest) :
    Carries g room id p first n k ((now, input) :: rest)
  | packet {k : Nat} (now : Time) {raw : Bytes} (source : Endpoint) {d : Datagram}
      {rest : List (Time × Input)} (hk : k ≤ n) (hdecode : Datagram.decode raw = .ok d)
      (hpacket : PicturePacket g room id first k d)
      (hrest : Carries g room id p first n (k + 1) rest) :
    Carries g room id p first n k ((now, .datagram raw source) :: rest)

theorem Carries.lt_span {g : LayerGraph} {first : UInt16} {n k : Nat} {inputs : List (Time × Input)}
    (h : Carries g room id p first n k inputs) (hk : k ≤ n) : n < FrameHistory.span := by
  induction h with
  | nil => omega
  | quiet _ _ _ ih => exact ih hk
  | @packet k _ _ _ d _ _ _ hpacket _ ih =>
    by_cases hlast : k + 1 ≤ n
    · exact ih hlast
    · have := hpacket.spatial
      have := d.header.layer.spatial.toNat_lt
      unfold FrameHistory.span
      omega

namespace Reachable

/-- A quiet input leaves what is sent to `p` as it is. -/
theorem quiet_step (h : r.Reachable) (now : Time) {input : Input} (hquiet : Quiet room id p input)
    (hs : r.stream? room id = some s) (hl : s.links.get? p = some link) :
    ∃ s', (r.step now input).1.stream? room id = some s' ∧ s'.graph = s.graph ∧
      s'.history = s.history ∧ s'.links.get? p = some link := by
  obtain ⟨within, hroom, hs⟩ := stream?_eq_some_iff.mp hs
  have hkept := h.sound _ _ hroom
  obtain ⟨after, hevolves, hafter⟩ := step_room h.sound now input hroom
  have hcoherent := hevolves.coherent hkept.toCoherent
  have hfound {s' : Stream F} (hs' : after.streams.get? id = some s') :
      (r.step now input).1.stream? room id = some s' := by
    have hopen := hcoherent.isOpen_of_stream hs'
    exact stream?_eq_some_iff.mpr
      ⟨after, hafter.trans (Room.unlessClosed_eq_some_iff.mpr ⟨hopen, rfl⟩), hs'⟩
  cases hevolves with
  | idle => exact ⟨s, hfound hs, rfl, rfl, hl⟩
  | signaled act _ _ =>
    obtain ⟨hsender, hreceiver, hunsubscribe, hnegotiate⟩ := hquiet rfl
    obtain ⟨offer, _, hact, -⟩ | ⟨hact, -⟩ | ⟨s', hs', hsame, hlinks⟩ :=
      within.signal_stream now act hs
    · exact absurd hact (hnegotiate offer)
    · exact absurd hact hsender
    · refine ⟨s', hfound hs', hsame.graph, hsame.history, ?_⟩
      obtain hl' | hact | hact := hlinks p link hl
      · exact hl'
      · exact absurd hact hreceiver
      · exact absurd hact hunsubscribe
  | handled raw source d _ hdecode hname _ =>
    obtain ⟨htype, hother⟩ := hquiet d hdecode
    refine ⟨s, hfound ?_, rfl, rfl, hl⟩
    rw [Room.handle_get?_of_ne hkept _ htype raw source now (hother hname)]
    exact hs
  | ticked gone _ => exact False.elim hquiet

/-- A frame packet of the stream, in its codec, is accepted if the history can place it. -/
theorem frame_accepted (h : r.Reachable) {raw : Bytes} {d : Datagram} {descriptor : Descriptor}
    {history : FrameHistory} {seen : Sighting} (hs : r.stream? d.header.room id = some s)
    (hdecode : Datagram.decode raw = .ok d) (hid : d.header.stream? = some id)
    (htype : d.header.packetType = .video ∨ d.header.packetType = .screen)
    (hcodec : d.header.codec = s.graph.codec) (hdescriptor : d.descriptor = some descriptor)
    (hseen : s.history.observe d.header.layer descriptor s.graph = (history, .ok seen))
    (source : Endpoint) (now : Time) : ∃ out, (r.receive raw source now).2 = .ok out := by
  obtain ⟨within, hroom, hs⟩ := stream?_eq_some_iff.mp hs
  obtain ⟨kind, hkind, rfl⟩ := Option.map_eq_some_iff.mp hid
  have hkept := h.sound _ _ hroom
  obtain ⟨⟨role, hrole, hallows⟩, hserves⟩ := hkept.streams _ s hs
  obtain ⟨sender, hsender, rfl⟩ := Option.map_eq_some_iff.mp hrole
  obtain ⟨presence, htouch⟩ := within.touch_eq d.header.sender source now
  have hsubscribers := hkept.subscribers_eq ⟨d.header.sender, kind⟩
  rw [hs, Option.map_some] at hsubscribers
  have hroute : Room.route { within with presence } d.header =
      .ok (s, (within.receivers ⟨d.header.sender, kind⟩).keys) :=
    Room.route_eq_ok_iff.mpr ⟨kind, sender, _, hkind, hkept.members_eq ▸ hsender, hallows,
      hsubscribers, hs, hcodec, rfl⟩
  obtain ⟨s', receivers', step, hpass⟩ : ∃ s' receivers' step,
      Room.Passage { within with presence } r.settings.hysteresis d raw now s
        (within.receivers ⟨d.header.sender, kind⟩).keys s' receivers' step :=
    ⟨_, _, _, .frame descriptor history seen htype hdescriptor hseen⟩
  have hforward := Room.forward_eq_ok_iff.mpr ⟨s, _, _, _, _, hroute, hpass, rfl, rfl⟩
  obtain ⟨-, -, hmedia⟩ := PacketType.of_frame htype
  rw [(receive_of_member h.sound source now hdecode hroom (Table.contains_of_get? hsender)).2,
    Room.handle, if_neg hmedia, htouch, hforward]
  exact ⟨_, rfl⟩

/-- A frame of a picture is noted, and brings a step up by one about at its own spatial index. -/
theorem picture_step (h : r.Reachable) (now : Time) {raw : Bytes} (source : Endpoint) {d : Datagram}
    {first : UInt16} {number n k : Nat} {c t : Layer} (hs : r.stream? room id = some s)
    (hl : s.links.get? p = some link) (htarget : link.target = Target.risen c t k)
    (hup : c.spatial < t.spatial) (hp : s.history.InPicture first number n k) (hk : k ≤ n)
    (hdecode : Datagram.decode raw = .ok d) (hpacket : PicturePacket s.graph room id first k d) :
    ∃ s' link', (r.step now (.datagram raw source)).1.stream? room id = some s' ∧
      s'.graph = s.graph ∧ s'.history = s.history.withFrame (number + k) d.header.layer ∧
      s'.links.get? p = some link' ∧ link'.target = Target.risen c t (k + 1) := by
  obtain ⟨rfl, hid, htype, hcodec, hspatial, -, hframe⟩ := hpacket
  obtain ⟨descriptor, ds, hdescriptor, hstart, hnumber, hdiffs, hds⟩ := hframe
  have hplace : s.history.numberOf descriptor = number + k := by
    rw [FrameHistory.numberOf, hnumber]
    exact hp.next
  have hseen := FrameHistory.observe_new hdiffs (hplace ▸ hp.ahead k (Nat.le_refl k) hk)
  rw [hplace, hstart] at hseen
  obtain ⟨out, hok⟩ := h.frame_accepted hs hdecode hid htype hcodec hdescriptor hseen source now
  obtain ⟨haudio, hfec, hmedia⟩ := PacketType.of_frame htype
  obtain ⟨id', within, s₁, s', receivers', step, hpasses⟩ :=
    h.media_accepted hdecode hmedia (Prod.ext rfl hok)
  obtain rfl := Option.some.inj (hid.symm.trans hpasses.named)
  obtain rfl := Option.some.inj (hs.symm.trans hpasses.before)
  obtain ⟨presence, hpass⟩ := hpasses.passage
  have hserved : (within.receivers id).contains p := hpasses.serves.receiver_of_link hl
  have hafter := hpasses.after
  have hlink := hpass.link_get? (within.receivers id).keys_nodup p
  cases hpass with
  | audio ht => exact absurd ht haudio
  | repair ht => exact absurd ht hfec
  | frame descriptor' history' seen' _ hdescriptor' hseen' =>
    cases hdescriptor.symm.trans hdescriptor'
    cases hseen.symm.trans hseen'
    rw [if_pos (Table.mem_keys_iff.mpr hserved), hl] at hlink
    refine ⟨_, _, hafter, rfl, rfl, hlink, ?_⟩
    rw [Downlink.offer_target]
    exact Downlink.switchAt_risen hp _ _ hspatial hds hup htarget

/-- A whole picture, frame by frame. -/
theorem picture_run {first : UInt16} {number n k : Nat} {c t : Layer} {g : LayerGraph}
    {inputs : List (Time × Input)} (hcarries : Carries g room id p first n k inputs)
    (h : r.Reachable) (hs : r.stream? room id = some s) (hg : s.graph = g)
    (hl : s.links.get? p = some link) (htarget : link.target = Target.risen c t k)
    (hup : c.spatial < t.spatial) (hp : s.history.InPicture first number n k)
    (hn : n < FrameHistory.span) :
    ((r.run inputs).link? room id p).map (·.target) = some (Target.risen c t (n + 1)) := by
  induction hcarries generalizing r s link with
  | nil =>
    rw [Relay.run, link?_eq_some_iff.mpr ⟨s, hs, hl⟩]
    exact congrArg some htarget
  | quiet now hquiet _ ih =>
    obtain ⟨s', hs', hgraph, hhistory, hl'⟩ := h.quiet_step now hquiet hs hl
    exact ih (h.step now _) hs' (hgraph.trans hg) hl' htarget (hhistory ▸ hp)
  | packet now source hk hdecode hpacket _ ih =>
    subst hg
    obtain ⟨s', link', hs', hgraph, hhistory, hl', htarget'⟩ :=
      h.picture_step now source hs hl htarget hup hp hk hdecode hpacket
    refine ih (h.step now _) hs' hgraph hl' htarget' ?_
    rw [hhistory]
    exact hp.step hk hn hpacket.spatial hpacket.temporal

theorem picture_completes_single_step (h : r.Reachable) (hs : r.stream? room id = some s)
    (hl : s.links.get? p = some link) {c t : Layer} (htarget : link.target = ⟨some c, some t⟩)
    (hup : c.spatial < t.spatial) {first : UInt16} {n : Nat} (hn : t.spatial.toNat ≤ n)
    (hnew : ∀ k ≤ n, s.history.layerOf? (Serial.extend 16 s.history.highest first.toNat + k) = none)
    {inputs : List (Time × Input)} (hcarries : Carries s.graph room id p first n 0 inputs) :
    ∃ link', (r.run inputs).link? room id p = some link' ∧
      (t.spatial.toNat = c.spatial.toNat + 1 → link'.target = ⟨some t, none⟩) ∧
      (t.spatial.toNat ≠ c.spatial.toNat + 1 → link'.target = ⟨some c, some t⟩) := by
  obtain ⟨within, hroom, hstream⟩ := stream?_eq_some_iff.mp hs
  have hgrounded := ((h.sound _ _ hroom).streams id s hstream).2.history
  have hstart : link.target = Target.risen c t 0 := by
    rw [htarget, Target.risen, if_neg (by omega)]
  have hrun := picture_run hcarries h hs rfl hl hstart hup (.start hgrounded hnew)
    (hcarries.lt_span (Nat.zero_le n))
  obtain ⟨link', hlink', htarget'⟩ := Option.map_eq_some_iff.mp hrun
  refine ⟨link', hlink', fun hone => ?_, fun hfar => ?_⟩
  · rw [htarget', Target.risen, if_pos ⟨by omega, hone⟩]
  · rw [htarget', Target.risen, if_neg (by omega)]

end Reachable

/-- Frame `k` of a picture in `callOfTwo`, which has number 1 for its first frame. -/
def framePacket (k : Nat) : Datagram :=
  videoPacket (.ofNat (k + 1)) (1 + .ofNat k) ⟨.ofNat k, 0⟩ (if k = 0 then [] else [1])

/-- `m` frames of a picture from frame `k` on. -/
def pictureFrom (k : Nat) : Nat → List (Time × Input)
  | 0 => []
  | m + 1 => (0, .datagram (wireBytes (framePacket k)) anyEndpoint) :: pictureFrom (k + 1) m

theorem framePacket_picture {g : LayerGraph} (hcodec : g.codec = .vp9) {k : Nat} (hk : k < 256)
    (hcovers : g.covers ⟨.ofNat k, 0⟩) :
    PicturePacket g ⟨7⟩ ⟨⟨1⟩, .video⟩ 1 k (framePacket k) := by
  refine ⟨rfl, rfl, .inl rfl, hcodec.symm, UInt8.toNat_ofNat_of_lt' hk, rfl, _,
    if k = 0 then [] else [1], rfl, rfl, rfl, ?_, ?_⟩
  · simp only [FrameHistory.diffs, framePacket, videoPacket, hcovers]
    rfl
  · by_cases h0 : k = 0
    · simp [FrameHistory.OneBack, h0]
    · simp [FrameHistory.OneBack, h0]

theorem pictureFrom_carries {g : LayerGraph} {p : ParticipantId} (hcodec : g.codec = .vp9) {n : Nat}
    (hframes : ∀ k ≤ n, k < 256 ∧ g.covers ⟨.ofNat k, 0⟩ ∧
      Datagram.decode (wireBytes (framePacket k)) = .ok (framePacket k)) {k m : Nat}
    (hm : k + m = n + 1) : Carries g ⟨7⟩ ⟨⟨1⟩, .video⟩ p 1 n k (pictureFrom k m) := by
  induction m generalizing k with
  | zero =>
    obtain rfl : k = n + 1 := hm
    exact .nil
  | succ m ih =>
    obtain ⟨hk, hcovers, hdecode⟩ := hframes k (by omega)
    exact .packet 0 anyEndpoint (by omega) hdecode (framePacket_picture hcodec hk hcovers)
      (ih (by omega))

/-- A state in which participant 2 gets S0T0 and waits for `t`, and a picture for it. -/
theorem picture_of_state {r : Relay Rat} {t : Layer} {n : Nat} (hn : n < 256)
    (hstate : (r.stream? ⟨7⟩ ⟨⟨1⟩, .video⟩).any fun s =>
      (s.links.get? ⟨2⟩).map (·.target) = some ⟨some ⟨0, 0⟩, some t⟩ ∧ s.graph.codec = .vp9 ∧
        ∀ k ≤ n, s.graph.covers ⟨.ofNat k, 0⟩ ∧
          s.history.layerOf? (Serial.extend 16 s.history.highest (1 : UInt16).toNat + k) = none)
    (hdecode : ∀ k ≤ n, (Datagram.decode (wireBytes (framePacket k))).toOption =
      some (framePacket k)) :
    ∃ s link, r.stream? ⟨7⟩ ⟨⟨1⟩, .video⟩ = some s ∧ s.links.get? ⟨2⟩ = some link ∧
      link.target = ⟨some ⟨0, 0⟩, some t⟩ ∧
      (∀ k ≤ n, s.graph.covers ⟨.ofNat k, 0⟩ ∧
        s.history.layerOf? (Serial.extend 16 s.history.highest (1 : UInt16).toNat + k) = none) ∧
      Carries s.graph ⟨7⟩ ⟨⟨1⟩, .video⟩ ⟨2⟩ 1 n 0 (pictureFrom 0 (n + 1)) := by
  obtain ⟨s, hs, hfacts⟩ := (Option.any_eq_true _ _).mp hstate
  obtain ⟨hlink, hcodec, hframes⟩ := of_decide_eq_true hfacts
  obtain ⟨link, hl, htarget⟩ := Option.map_eq_some_iff.mp hlink
  refine ⟨s, link, hs, hl, htarget, hframes, pictureFrom_carries hcodec (fun k hk => ?_) ?_⟩
  · exact ⟨by omega, (hframes k hk).1, Guard.eq_ok_of_toOption (hdecode k hk)⟩
  · exact Nat.zero_add (n + 1)

theorem picture_raises_to_next :
    let r := toldRate [⟨.base, 200000⟩, ⟨⟨1, 0⟩, 500000⟩] 800000
    ∃ s link, r.stream? ⟨7⟩ ⟨⟨1⟩, .video⟩ = some s ∧ s.links.get? ⟨2⟩ = some link ∧
      link.target = ⟨some ⟨0, 0⟩, some ⟨1, 0⟩⟩ ∧
      Carries s.graph ⟨7⟩ ⟨⟨1⟩, .video⟩ ⟨2⟩ 1 1 0 (pictureFrom 0 2) ∧
      ∃ link', (r.run (pictureFrom 0 2)).link? ⟨7⟩ ⟨⟨1⟩, .video⟩ ⟨2⟩ = some link' ∧
        link'.target = ⟨some ⟨1, 0⟩, none⟩ := by
  intro r
  obtain ⟨s, link, hs, hl, htarget, hframes, hcarries⟩ :=
    picture_of_state (r := r) (t := ⟨1, 0⟩) (n := 1) (by decide) (by decide +kernel)
      (by decide +kernel)
  obtain ⟨link', hlink', hnext, -⟩ :=
    (toldRate_reachable _ _).picture_completes_single_step hs hl htarget (by decide) (by decide)
      (fun k hk => (hframes k hk).2) hcarries
  exact ⟨s, link, hs, hl, htarget, hcarries, link', hlink', hnext rfl⟩

/-- A picture of three spatial indices does not bring the receiver from S0T0 to S2T1. -/
theorem picture_leaves_step_by_two :
    let r := toldRate [⟨.base, 200000⟩, ⟨⟨1, 0⟩, 500000⟩, ⟨⟨2, 1⟩, 900000⟩] 1200000
    r.Reachable ∧ ∃ s link, r.stream? ⟨7⟩ ⟨⟨1⟩, .video⟩ = some s ∧ s.links.get? ⟨2⟩ = some link ∧
      link.target = ⟨some ⟨0, 0⟩, some ⟨2, 1⟩⟩ ∧
      (∀ k ≤ 2, s.graph.covers ⟨.ofNat k, 0⟩ ∧
        s.history.layerOf? (Serial.extend 16 s.history.highest (1 : UInt16).toNat + k) = none) ∧
      Carries s.graph ⟨7⟩ ⟨⟨1⟩, .video⟩ ⟨2⟩ 1 2 0 (pictureFrom 0 3) ∧
      ((r.run (pictureFrom 0 3)).link? ⟨7⟩ ⟨⟨1⟩, .video⟩ ⟨2⟩).map (·.target) =
        some ⟨some ⟨0, 0⟩, some ⟨2, 1⟩⟩ := by
  intro r
  obtain ⟨s, link, hs, hl, htarget, hframes, hcarries⟩ :=
    picture_of_state (r := r) (t := ⟨2, 1⟩) (n := 2) (by decide) (by decide +kernel)
      (by decide +kernel)
  exact ⟨toldRate_reachable _ _, s, link, hs, hl, htarget, hframes, hcarries, by decide +kernel⟩

end Relay

end MediaRelay
