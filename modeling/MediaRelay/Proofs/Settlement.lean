import Mathlib.Data.Set.Function
import MediaRelay.Proofs.SendLog
import MediaRelay.Stream

/-!
Packets are settled once. Every delivery that reports give in a run is of the latest packet sent
under its number, and no two are of the same packet (`run_settles_once`). What a downlink withheld is
not in its log and is never reported to its estimator.
-/

namespace MediaRelay

namespace SendLog

/-- Act number `place.1` of a run is a report, and `d` is number `place.2` of what it settles. -/
def Settles (capacity : Nat) (acts : List Act) (place : Nat × Nat) (epoch : Time) (d : Delivery) :
    Prop :=
  ∃ report, acts[place.1]? = some (.report report epoch) ∧
    (((empty capacity).run (acts.take place.1)).resolve report epoch).2[place.2]? = some d

/-- Of the acts before number `i`, number `k` is the last that notes a packet under the number. -/
structure IsLatest (acts : List Act) (i : Nat) (s : UInt32) (k : Nat) (packet : SentPacket) :
    Prop where
  before : k < i
  sent : acts[k]? = some (.sent s packet.sent packet.size)
  last : ∀ m, k < m → m < i → ∀ now size, acts[m]? ≠ some (.sent s now size)

variable {capacity : Nat} {acts : List Act} {s : UInt32}

/-- What lies between an act and a later one, by number. -/
theorem getElem?_of_take_eq {i : Nat} {before after : List Act} {act : Act}
    (h : acts.take i = before ++ act :: after) :
    before.length < i ∧ acts[before.length]? = some act ∧
      ∀ m, before.length < m → m < i → ∀ later, acts[m]? = some later → later ∈ after := by
  have hlength := congrArg List.length h
  simp only [List.length_take, List.length_append, List.length_cons] at hlength
  have hget {m : Nat} (hm : m < i) : acts[m]? = (before ++ act :: after)[m]? := by
    rw [← h, List.getElem?_take_of_lt hm]
  refine ⟨by omega, ?_, fun m hbefore hm later hlater => ?_⟩
  · rw [hget (by omega), List.getElem?_append_right (Nat.le_refl _), Nat.sub_self]
    rfl
  · rw [hget hm, List.getElem?_append_right (by omega),
      show m - before.length = m - before.length - 1 + 1 by omega, List.getElem?_cons_succ] at hlater
    exact List.mem_of_getElem? hlater

/-- Act number `k` notes the packet that a delivery of act number `i` tells of, and no report in
between tells of its number. -/
structure IsSource (acts : List Act) (i : Nat) (epoch : Time) (d : Delivery) (k : Nat) : Prop where
  latest : ∃ packet, IsLatest acts i d.sequence k packet ∧
    d = packet.told epoch d.sequence d.arrival
  quiet : ∀ m, k < m → m < i → ∀ report epoch, acts[m]? = some (.report report epoch) →
    ¬report.Covers d.sequence

/-- A packet that is settled was noted, and neither noted again nor settled since. -/
theorem Settles.exists_source {place : Nat × Nat} {epoch : Time} {d : Delivery}
    (h : Settles capacity acts place epoch d) : ∃ k, IsSource acts place.1 epoch d k := by
  obtain ⟨report, hreport, hd⟩ := h
  obtain ⟨-, packet, hpacket, htold⟩ := mem_resolve (List.mem_of_getElem? hd)
  obtain ⟨before, after, hacts, hquiet⟩ := exists_sent hpacket
  obtain ⟨hbefore, hsent, hafter⟩ := getElem?_of_take_eq hacts
  refine ⟨before.length, ⟨packet, ⟨hbefore, hsent, ?_⟩, htold⟩, ?_⟩
  · exact fun m hk hm now size hagain => hquiet _ (hafter m hk hm _ hagain) rfl
  · exact fun m hk hm report epoch hreport => hquiet _ (hafter m hk hm _ hreport)

theorem Settles.unique {place : Nat × Nat} {epoch epoch' : Time} {d d' : Delivery}
    (h : Settles capacity acts place epoch d) (h' : Settles capacity acts place epoch' d') :
    d = d' ∧ epoch = epoch' := by
  obtain ⟨report, hreport, hd⟩ := h
  obtain ⟨report', hreport', hd'⟩ := h'
  cases hreport.symm.trans hreport'
  exact ⟨Option.some.inj (hd.symm.trans hd'), rfl⟩

/-- A report that settles a packet comes no earlier than another one with the same source. -/
theorem Settles.le_of_source {place : Nat × Nat} {epoch epoch' : Time} {d d' : Delivery} {i k : Nat}
    (h : Settles capacity acts place epoch d) (hk : IsSource acts place.1 epoch d k)
    (hsource : IsSource acts i epoch' d' k) (hsequence : d.sequence = d'.sequence) :
    i ≤ place.1 := by
  obtain ⟨packet, hlatest, -⟩ := hk.latest
  obtain ⟨report, hreport, hd⟩ := h
  refine Nat.le_of_not_lt fun hlt => ?_
  exact hsource.quiet place.1 hlatest.before hlt report epoch hreport
    (hsequence ▸ (mem_resolve (List.mem_of_getElem? hd)).1)

/-- Two deliveries of the same act under one number are the same. -/
theorem Settles.place_eq {place place' : Nat × Nat} {epoch epoch' : Time} {d d' : Delivery}
    (h : Settles capacity acts place epoch d) (h' : Settles capacity acts place' epoch' d')
    (hact : place.1 = place'.1) (hsequence : d.sequence = d'.sequence) : place = place' := by
  obtain ⟨report, hreport, hd⟩ := h
  obtain ⟨report', hreport', hd'⟩ := h'
  rw [← hact] at hreport' hd'
  cases hreport.symm.trans hreport'
  have hnodup : ((((empty capacity).run (acts.take place.1)).resolve report epoch).2.map
      (·.sequence)).Nodup := resolve_nodup report epoch
  refine Prod.ext hact ((List.getElem?_inj ?_ hnodup).mp ?_)
  · rw [List.length_map]
    exact (List.getElem?_eq_some_iff.mp hd).1
  · rw [List.getElem?_map, List.getElem?_map, hd, hd']
    exact congrArg some hsequence

/-- No two deliveries have the same source. -/
theorem Settles.source_inj {place place' : Nat × Nat} {epoch epoch' : Time} {d d' : Delivery}
    {k : Nat} (h : Settles capacity acts place epoch d) (h' : Settles capacity acts place' epoch' d')
    (hk : IsSource acts place.1 epoch d k) (hk' : IsSource acts place'.1 epoch' d' k) :
    place = place' := by
  obtain ⟨packet, hlatest, -⟩ := hk.latest
  obtain ⟨packet', hlatest', -⟩ := hk'.latest
  have hsequence : d.sequence = d'.sequence :=
    (Act.sent.inj (Option.some.inj (hlatest.sent.symm.trans hlatest'.sent))).1
  have hle := h'.le_of_source hk' hk hsequence.symm
  have hge := h.le_of_source hk hk' hsequence
  exact h.place_eq h' (Nat.le_antisymm hle hge) hsequence

theorem exists_source (capacity : Nat) (acts : List Act) :
    ∃ source : Nat × Nat → Nat, ∀ place epoch d, Settles capacity acts place epoch d →
      IsSource acts place.1 epoch d (source place) := by
  have hplace (place : Nat × Nat) : ∃ k, ∀ epoch d, Settles capacity acts place epoch d →
      IsSource acts place.1 epoch d k := by
    by_cases hsettled : ∃ epoch d, Settles capacity acts place epoch d
    · obtain ⟨epoch, d, hd⟩ := hsettled
      obtain ⟨k, hk⟩ := hd.exists_source
      refine ⟨k, fun epoch' d' hd' => ?_⟩
      obtain ⟨rfl, rfl⟩ := hd.unique hd'
      exact hk
    · exact ⟨0, fun epoch d hd => absurd ⟨epoch, d, hd⟩ hsettled⟩
  choose source hsource using hplace
  exact ⟨source, hsource⟩

end SendLog

namespace Downlink

variable {F : Type} [Arithmetic F]

/-- What happens to a downlink: a packet of a layered or of another stream comes, a report comes, or
its estimate, its target and what they refer to change for another reason. -/
inductive Act (F : Type)
  | layered (layer : Layer) (sequence : UInt32) (size : Nat) (now : Time)
  | plain (sequence : UInt32) (size : Nat) (now : Time)
  | report (report : Report) (now : Time)
  | adjust (estimator : Estimator F) (target : Target) (version : Nat) (feedback : Option Time)

def step (d : Downlink F) : Act F → Downlink F
  | .layered layer sequence size now => (d.offer layer sequence size now).1
  | .plain sequence size now => (d.send sequence size now).1
  | .report report now => d.onReport report now
  | .adjust estimator target graphVersion lastFeedback =>
    { d with estimator, target, graphVersion, lastFeedback }

def run (d : Downlink F) : List (Act F) → Downlink F
  | [] => d
  | act :: acts => (d.step act).run acts

/-- What an act is for the log: of packets those are noted that are sent. -/
def logged (d : Downlink F) : Act F → List SendLog.Act
  | .layered layer sequence size now =>
    if (d.offer layer sequence size now).2 = .sent then [.sent sequence now size] else []
  | .plain sequence size now => [.sent sequence now size]
  | .report report _ => [.report report d.epoch]
  | .adjust _ _ _ _ => []

def loggedAll (d : Downlink F) : List (Act F) → List SendLog.Act
  | [] => []
  | act :: acts => d.logged act ++ (d.step act).loggedAll acts

theorem step_sent (d : Downlink F) (act : Act F) :
    (d.step act).sent = d.sent.run (d.logged act) := by
  cases act with
  | layered layer sequence size now =>
    rw [step, logged, offer]
    split <;> rfl
  | plain sequence size now => rfl
  | report report now => rfl
  | adjust estimator target version feedback => rfl

theorem run_sent (d : Downlink F) (acts : List (Act F)) :
    (d.run acts).sent = d.sent.run (d.loggedAll acts) := by
  induction acts generalizing d with
  | nil => rfl
  | cons act acts ih => rw [run, ih, step_sent, loggedAll, SendLog.run_append]

/-- A fresh downlink hears only of packets that it sent. -/
theorem sent_of_resolve {receiver : ParticipantId} {settings : Estimator.Settings F}
    {timeout version : Nat} {now : Time} {acts : List (Act F)} {report : Report} {d : Delivery}
    (hd : d ∈ (((start receiver settings timeout version now).run acts).sent.resolve report
      ((start receiver settings timeout version now).run acts).epoch).2) :
    ∃ sent size,
      .sent d.sequence sent size ∈ (start receiver settings timeout version now).loggedAll acts := by
  obtain ⟨-, packet, hpacket, -⟩ := SendLog.mem_resolve hd
  rw [run_sent] at hpacket
  obtain ⟨before, after, hacts, -⟩ := SendLog.exists_sent hpacket
  exact ⟨packet.sent, packet.size, hacts ▸ List.mem_append_right _ List.mem_cons_self⟩

end Downlink

namespace SendLog

theorem run_settles_once {F : Type} [Arithmetic F] (capacity : Nat) (acts : List Act) :
    (∃ source : Nat × Nat → Nat,
      Set.InjOn source {place | ∃ epoch d, Settles capacity acts place epoch d} ∧
      ∀ place epoch d, Settles capacity acts place epoch d →
        ∃ packet, IsLatest acts place.1 d.sequence (source place) packet ∧
          d.sent = Serial.signed64 (Time.since packet.sent epoch) ∧ d.size = packet.size) ∧
    (∀ report epoch,
      (((((empty capacity).run acts).resolve report epoch).2.map
        fun d => (d.sequence, d.arrival)).Sublist report.arrivals) ∧
      ∀ again, ((((empty capacity).run acts).resolve report epoch).1.resolve report again).2 = []) ∧
    ((empty capacity).run acts).size ≤ capacity ∧
    ∀ (receiver : ParticipantId) (settings : Estimator.Settings F) (timeout version : Nat)
      (now later : Time) (passed : List (Downlink.Act F)) (report : Report),
      let fresh := Downlink.start receiver settings timeout version now
      let link := fresh.run passed
      link.sent = (empty Downlink.memory).run (fresh.loggedAll passed) ∧
        (link.onReport report later).estimator =
          link.estimator.ingest (link.sent.resolve report link.epoch).2 later ∧
        ∀ d ∈ (link.sent.resolve report link.epoch).2,
          ∃ sent size, .sent d.sequence sent size ∈ fresh.loggedAll passed := by
  refine ⟨?_, fun report epoch => ⟨settleAll_sublist _ epoch report.arrivals, fun again =>
    resolve_again report epoch again⟩, ?_, ?_⟩
  · obtain ⟨source, hsource⟩ := exists_source capacity acts
    refine ⟨source, ?_, fun place epoch d hd => ?_⟩
    · rintro place ⟨epoch, d, hd⟩ place' ⟨epoch', d', hd'⟩ hsame
      exact hd.source_inj hd' (hsource place epoch d hd) (hsame ▸ hsource place' epoch' d' hd')
    · obtain ⟨packet, hlatest, htold⟩ := (hsource place epoch d hd).latest
      exact ⟨packet, hlatest, by rw [htold, SentPacket.told], by rw [htold, SentPacket.told]⟩
  · have hsize := ((sound_empty capacity).run acts).size_le
    rwa [run_capacity] at hsize
  · intro receiver settings timeout version now later passed report fresh link
    exact ⟨fresh.run_sent passed, rfl, fun d hd => Downlink.sent_of_resolve hd⟩

end SendLog

end MediaRelay
