import MediaRelay.Proofs.FrameHistory
import MediaRelay.Proofs.Negotiation
import MediaRelay.Proofs.Spread

/-!
What a stream keeps. A stream stands under its own id and has one downlink, under the receiver's own
name, for each of its receivers and for nobody else (`Stream.Serves`).
-/

namespace MediaRelay

variable {F : Type}

namespace LayerGraph

/-- A graph is of the kind and the version that it was asked for. -/
theorem ofOffer_fields {kind : Kind} {offer : Offer} {version : Nat} {g : LayerGraph}
    (h : ofOffer kind offer version = .ok g) : g.kind = kind ∧ g.version = version := by
  obtain ⟨-, rfl⟩ := ofOffer_eq_ok_iff.mp h
  exact ⟨rfl, rfl⟩

end LayerGraph

structure Stream.Serves (s : Stream F) (id : StreamId) (receivers : KeySet ParticipantId) :
    Prop where
  name : s.id = id
  kind : s.graph.kind = id.kind
  history : s.history.Grounded
  links : ∀ p, (s.links.get? p).map (·.receiver) = if receivers.contains p then some p else none

namespace Stream.Serves

variable {s s' : Stream F} {id : StreamId} {receivers receivers' : KeySet ParticipantId}

theorem contains_iff (h : s.Serves id receivers) (p : ParticipantId) :
    s.links.contains p ↔ receivers.contains p := by
  have hp := h.links p
  unfold Table.contains
  cases hl : s.links.get? p with
  | none =>
    cases hr : receivers.contains p with
    | false => simp [Table.contains, ← hr]
    | true => simp [hl, hr] at hp
  | some link =>
    cases hr : receivers.contains p with
    | false => simp [hl, hr] at hp
    | true => simp [Table.contains, ← hr]

theorem link_of_receiver (h : s.Serves id receivers) {p : ParticipantId}
    (hp : receivers.contains p) : ∃ link, s.links.get? p = some link :=
  Table.contains_iff.mp ((h.contains_iff p).mpr hp)

theorem receiver_of_link (h : s.Serves id receivers) {p : ParticipantId} {link : Downlink F}
    (hl : s.links.get? p = some link) : receivers.contains p :=
  (h.contains_iff p).mp (Table.contains_of_get? hl)

theorem receiver_eq (h : s.Serves id receivers) {p : ParticipantId} {link : Downlink F}
    (hl : s.links.get? p = some link) : link.receiver = p := by
  have hp := h.links p
  rw [hl, if_pos (h.receiver_of_link hl)] at hp
  simpa using hp

/-- A change that keeps the downlinks under their receivers. -/
theorem of_links (h : s.Serves id receivers) (hid : s'.id = s.id)
    (hkind : s'.graph.kind = s.graph.kind) (hhistory : s'.history.Grounded)
    (hlinks : ∀ p, (s'.links.get? p).map (·.receiver) = (s.links.get? p).map (·.receiver)) :
    s'.Serves id receivers :=
  ⟨hid.trans h.name, hkind.trans h.kind, hhistory, fun p => (hlinks p).trans (h.links p)⟩

theorem dropLink (h : s.Serves id receivers) {p : ParticipantId}
    (hr : ∀ q, receivers'.contains q ↔ q ≠ p ∧ receivers.contains q) :
    (s.dropLink p).Serves id receivers' := by
  refine ⟨h.name, h.kind, h.history, fun q => ?_⟩
  show ((s.links.erase p).get? q).map (·.receiver) = _
  by_cases hq : q = p
  · simp [hq, hr]
  · simp [hq, hr, Table.get?_erase_of_ne, h.links]

theorem renegotiate (h : s.Serves id receivers) {graph : LayerGraph}
    (hkind : graph.kind = id.kind) : (s.renegotiate graph).Serves id receivers := by
  refine ⟨h.name, hkind, FrameHistory.grounded_empty, fun p => ?_⟩
  rw [← h.links p]
  simp only [Stream.renegotiate, Table.get?_map, Option.map_map]
  rfl

variable [Arithmetic F]

theorem start (graph : LayerGraph) (settings : Estimator.Settings F) (timeout : Nat) (now : Time)
    (hkind : graph.kind = id.kind) (hr : ∀ p, receivers.contains p = false) :
    (Stream.start id graph settings timeout now).Serves id receivers := by
  refine ⟨rfl, hkind, FrameHistory.grounded_empty, fun p => ?_⟩
  simp only [hr, Bool.false_eq_true, if_false]
  rfl

theorem addLink (h : s.Serves id receivers) (settings : Estimator.Settings F) (timeout : Nat)
    (now : Time) {p : ParticipantId}
    (hr : ∀ q, receivers'.contains q ↔ q = p ∨ receivers.contains q) :
    (s.addLink settings timeout now p).Serves id receivers' := by
  refine ⟨h.name, h.kind, h.history, fun q => ?_⟩
  show ((s.links.insertIfNew p _).get? q).map (·.receiver) = _
  rw [Table.get?_insertIfNew]
  by_cases hq : q = p
  · subst hq
    rw [if_pos rfl, if_pos ((hr q).mpr (.inl rfl))]
    cases hl : s.links.get? q with
    | none => rfl
    | some link => simp [h.receiver_eq hl]
  · rw [if_neg (mt Key.rank_inj hq), h.links]
    simp [hr, hq]

theorem addLinks (h : s.Serves id receivers) (settings : Estimator.Settings F) (timeout : Nat)
    (now : Time) (added : List ParticipantId)
    (hr : ∀ q, receivers'.contains q ↔ q ∈ added ∨ receivers.contains q) :
    (added.foldl (fun s p => s.addLink settings timeout now p) s).Serves id receivers' := by
  induction added generalizing s receivers with
  | nil =>
    refine ⟨h.name, h.kind, h.history, fun q => ?_⟩
    have hq := hr q
    simp only [List.not_mem_nil, false_or] at hq
    rw [List.foldl_nil, h.links]
    simp [hq]
  | cons p rest ih =>
    have hadd : (s.addLink settings timeout now p).Serves id (receivers.insert p ()) :=
      h.addLink settings timeout now fun _ => Table.contains_insert
    refine ih hadd fun q => ?_
    rw [hr, List.mem_cons, Table.contains_insert]
    constructor
    · rintro ((hq | hq) | hq)
      · exact .inr (.inl hq)
      · exact .inl hq
      · exact .inr (.inr hq)
    · rintro (hq | hq | hq)
      · exact .inl (.inr hq)
      · exact .inl (.inl hq)
      · exact .inr hq

end Stream.Serves

end MediaRelay
