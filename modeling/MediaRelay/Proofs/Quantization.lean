import Mathlib.Data.List.Chain
import MediaRelay.Proofs.ArrivalLog

/-!
Rounding of arrival times. A report gives each arrival as a distance from the time that has been
rebuilt so far, so the next delta makes up for an error and does not add to it. What a delta leaves
open depends on its own distance alone (`Report.ofArrivals_rounds`), and it is at most half a unit
as long as no gap is longer than one delta can be (`Report.ofArrivals_close`).
-/

namespace MediaRelay

namespace Status

/-- The furthest back that one delta goes. -/
def earliest : Int := -32768 * unit

/-- The furthest ahead that one delta goes. -/
def latest : Int := 32767 * unit

/-- The delta takes the time rebuilt so far to an arrival, or as near to it as it can. -/
structure Approaches (rebuilt time delta : Int) : Prop where
  writable : (received delta).IsWritable
  close : earliest ≤ time - rebuilt → time - rebuilt ≤ latest →
    (rebuilt + delta - time).natAbs ≤ 125
  back : time - rebuilt < earliest → delta = earliest
  ahead : latest < time - rebuilt → delta = latest

theorem nearest_approaches (rebuilt time : Int) :
    Approaches rebuilt time (nearest (time - rebuilt)) := by
  refine ⟨nearest_isWritable _, ?_, ?_, ?_⟩
  all_goals
    simp only [nearest, earliest, latest, unit]
    omega

/-- The last time in a list of arrivals, `now` if there is none. -/
def lastTime (now : Int) (arrivals : List (UInt32 × Option Int)) : Int :=
  (arrivals.filterMap (·.2)).getLast?.getD now

theorem lastTime_cons_some (now time : Int) (sequence : UInt32)
    (arrivals : List (UInt32 × Option Int)) :
    lastTime now ((sequence, some time) :: arrivals) = lastTime time arrivals := by
  simp [lastTime, List.getLast?_cons]

theorem next_sequence (sequence : UInt32) (i : Nat) :
    sequence + 1 + .ofNat i = sequence + .ofNat (i + 1) := by
  rw [UInt32.add_assoc, UInt32.add_comm 1, UInt32.ofNat_add]
  rfl

/-- Each delta is rounded against the last time rebuilt before it. -/
theorem rebuild_quantize_getElem? {times : List (Option Nat)}
    (hfits : ∀ t : Nat, some t ∈ times → Serial.signed64 t = t) {i : Nat} {time? : Option Nat}
    (h : times[i]? = some time?) (sequence : UInt32) (now : Int) :
    let arrivals := rebuild sequence now (quantize now times)
    let last := lastTime now (arrivals.take i)
    let delta? := time?.map fun time : Nat => nearest (time - last)
    (quantize now times)[i]? = some (delta?.elim lost received) ∧
      arrivals[i]? = some (sequence + .ofNat i, delta?.map (last + ·)) := by
  induction times generalizing i sequence now with
  | nil => cases h
  | cons head rest ih =>
    have hrest := fun t ht => hfits t (List.mem_cons_of_mem _ ht)
    cases i with
    | zero =>
      cases h
      cases time? with
      | none => simp [quantize, rebuild]
      | some time => simp [quantize, rebuild, lastTime, hfits time (by simp)]
    | succ i =>
      rw [← next_sequence]
      cases head with
      | none => exact ih hrest h (sequence + 1) now
      | some time =>
        simp only [quantize, rebuild, List.take_succ_cons, lastTime_cons_some]
        exact ih hrest h (sequence + 1) _

/-- A delta reaches from one time to the other, with half a unit to spare. -/
def Near (a b : Nat) : Prop := earliest + 125 ≤ (b : Int) - a ∧ (b : Int) - a ≤ latest - 125

/-- A time was rebuilt to within half a unit. -/
def IsClose (time : Nat) (rebuilt : Int) : Prop := (rebuilt - time).natAbs ≤ 125

/-- A time that is half a unit off makes the next one half a unit off, if that is near. -/
theorem rebuild_quantize_close {times : List (Option Nat)}
    (hfits : ∀ t : Nat, some t ∈ times → Serial.signed64 t = t) {previous : Nat}
    (hnear : (previous :: times.filterMap id).IsChain Near)
    (sequence : UInt32) {now : Int} (hnow : IsClose previous now) :
    List.Forall₂ (Option.Rel IsClose) times
      ((rebuild sequence now (quantize now times)).map (·.2)) := by
  induction times generalizing previous sequence now with
  | nil => exact .nil
  | cons head rest ih =>
    have hrest := fun t ht => hfits t (List.mem_cons_of_mem _ ht)
    cases head with
    | none => exact .cons .none (ih hrest hnear (sequence + 1) hnow)
    | some time =>
      obtain ⟨hstep, hchain⟩ := List.isChain_cons_cons.mp hnear
      have hclose := (nearest_approaches now time).close
      simp only [earliest, latest, unit, Near, IsClose] at hclose hstep hnow
      specialize hclose (by omega) (by omega)
      simp only [quantize, rebuild, List.map_cons, hfits time (by simp)]
      exact .cons (.some hclose) (ih hrest hchain (sequence + 1) hclose)

end Status

namespace Report

/-- Microseconds of the time that the first delta counts from. -/
def reference (r : Report) : Int := r.referenceMs.toNat * 1000

/-- The time rebuilt for the last packet received before the `i`th, the reference if there is none. -/
def timeBefore (r : Report) (i : Nat) : Int := Status.lastTime r.reference (r.arrivals.take i)

section OfArrivals

variable (base : UInt32) {times : List (Option Nat)} (h : ∀ t, some t ∈ times → t < 2 ^ 32 * 1000)
include h

theorem referenceMs_ofArrivals :
    (ofArrivals base times).referenceMs.toNat = (times.findSome? id).getD 0 / 1000 := by
  have hfirst : (times.findSome? id).getD 0 < 2 ^ 32 * 1000 := by
    cases ht : times.findSome? id with
    | none => decide
    | some t =>
      obtain ⟨time?, hmem, heq⟩ := List.exists_of_findSome?_eq_some ht
      exact h t (heq ▸ hmem)
  rw [ofArrivals, UInt32.toNat_ofNat', Nat.mod_eq_of_lt (Nat.div_lt_of_lt_mul (by omega))]

theorem statuses_ofArrivals :
    (ofArrivals base times).statuses =
      Status.quantize (ofArrivals base times).reference (times.take maxPackets) := by
  have hms := (ofArrivals base times).referenceMs.toNat_lt
  have hreference : Serial.signed64 ↑((times.findSome? id).getD 0 / 1000 * 1000) =
      (ofArrivals base times).reference := by
    rw [← referenceMs_ofArrivals base h]
    exact (Serial.signed64_eq_iff.mpr (by omega)).trans (Int.natCast_mul _ _)
  rw [← hreference]
  rfl

theorem arrivals_ofArrivals :
    (ofArrivals base times).arrivals = Status.rebuild base (ofArrivals base times).reference
      (Status.quantize (ofArrivals base times).reference (times.take maxPackets)) := by
  rw [← statuses_ofArrivals base h]
  rfl

omit base in
theorem arrivals_fit {t : Nat} (ht : some t ∈ times.take maxPackets) : Serial.signed64 t = t := by
  have := h t (List.mem_of_mem_take ht)
  exact Serial.signed64_eq_iff.mpr (by omega)

theorem ofArrivals_getElem? {i : Nat} (hi : i < maxPackets) {time? : Option Nat}
    (htime : times[i]? = some time?) :
    let r := ofArrivals base times
    let delta? := time?.map fun time : Nat => Status.nearest (time - r.timeBefore i)
    r.statuses[i]? = some (delta?.elim .lost .received) ∧
      r.arrivals[i]? = some (base + .ofNat i, delta?.map (r.timeBefore i + ·)) := by
  intro r
  rw [timeBefore, statuses_ofArrivals base h, arrivals_ofArrivals base h]
  exact Status.rebuild_quantize_getElem? (fun _ => arrivals_fit h)
    ((List.getElem?_take_of_lt hi).trans htime) base r.reference

/-- Errors do not add up: if no gap between arrivals is longer than one delta can be, each time is
rebuilt to within half a unit, after however many packets. -/
theorem ofArrivals_close (hnear : (times.filterMap id).IsChain Status.Near) :
    List.Forall₂ (Option.Rel Status.IsClose) (times.take maxPackets)
      ((ofArrivals base times).arrivals.map (·.2)) := by
  let r := ofArrivals base times
  have harrivals : r.arrivals =
      Status.rebuild base r.reference (Status.quantize r.reference (times.take maxPackets)) :=
    arrivals_ofArrivals base h
  have hprefix : (times.take maxPackets).filterMap id <+: times.filterMap id :=
    (List.take_prefix _ _).filterMap id
  have hchain : (r.referenceMs.toNat * 1000 :: (times.take maxPackets).filterMap id).IsChain
      Status.Near := by
    refine List.isChain_cons.mpr ⟨fun t ht => ?_, hnear.prefix hprefix⟩
    rw [Option.mem_def, List.head?_filterMap] at ht
    have hms : r.referenceMs.toNat = (times.findSome? id).getD 0 / 1000 :=
      referenceMs_ofArrivals base h
    rw [(List.take_prefix _ _).findSome?_eq_some ht, Option.getD_some] at hms
    simp only [Status.Near, Status.earliest, Status.latest, Status.unit]
    omega
  rw [harrivals]
  refine Status.rebuild_quantize_close (fun _ => arrivals_fit h) hchain base ?_
  simp [Status.IsClose, reference]

end OfArrivals

/-- The lost packets of a report are those without an arrival. The time of any other is rebuilt from
the last one before it, and comes as close as one delta can: what is left open does not depend on
what was left open before. -/
theorem ofArrivals_rounds (base : UInt32) {times : List (Option Nat)}
    (h : ∀ t, some t ∈ times → t < 2 ^ 32 * 1000) :
    let r := ofArrivals base times
    r.packetCount = min times.length maxPackets ∧ (∃ b, r.encode = .ok b) ∧
    (∀ t, times.findSome? id = some t → r.referenceMs.toNat = t / 1000) ∧
    (∀ i < maxPackets, times[i]? = some none →
      r.statuses[i]? = some .lost ∧ r.arrivals[i]? = some (base + .ofNat i, none)) ∧
    ∀ i < maxPackets, ∀ t : Nat, times[i]? = some (some t) →
      let delta := Status.nearest (t - r.timeBefore i)
      r.statuses[i]? = some (.received delta) ∧
      r.arrivals[i]? = some (base + .ofNat i, some (r.timeBefore i + delta)) ∧
      Status.Approaches (r.timeBefore i) t delta := by
  intro r
  refine ⟨?_, exists_encode_iff.mpr (ofArrivals_isWritable base times), fun t ht => ?_,
    fun i hi hlost => ofArrivals_getElem? base h hi hlost, fun i hi t ht => ?_⟩
  · rw [packetCount, statuses_ofArrivals base h, Status.length_quantize, List.length_take,
      Nat.min_comm]
  · rw [referenceMs_ofArrivals base h, ht]
    rfl
  · obtain ⟨hstatus, harrival⟩ := ofArrivals_getElem? base h hi ht
    exact ⟨hstatus, harrival, Status.nearest_approaches _ _⟩

/-- Arrivals at 10.1 ms, 10.4 ms and 30 s with a lost packet between them, and at last one at 5 ms:
of the long gap one delta makes up only a part, and the way back goes as far as a delta can. -/
theorem ofArrivals_rounds_long_gap :
    let times := [some 10100, none, some 10400, some 30000000, some 5000]
    let r := ofArrivals 7 times
    (∀ t, some t ∈ times → t < 2 ^ 32 * 1000) ∧ r.packetCount = 5 ∧ (∃ b, r.encode = .ok b) ∧
      r.referenceMs.toNat = 10 ∧ r.statuses[1]? = some .lost ∧
      r.arrivals[2]? = some (9, some 10500) ∧ Status.Approaches 10000 10400 500 ∧
      r.arrivals[4]? = some (11, some 10250) ∧ Status.Approaches 8202250 5000 (-8192000) := by
  intro times r
  have h : ∀ t, some t ∈ times → t < 2 ^ 32 * 1000 := by simp [times]
  obtain ⟨hcount, hencode, hreference, hlost, hreceived⟩ := ofArrivals_rounds 7 h
  obtain ⟨-, hclose, hstep⟩ := hreceived 2 (by decide) 10400 rfl
  obtain ⟨-, hfar, hback⟩ := hreceived 4 (by decide) 5000 rfl
  have hbefore : r.timeBefore 2 = 10000 := by decide +kernel
  have hbefore' : r.timeBefore 4 = 8202250 := by decide +kernel
  rw [hbefore] at hclose hstep
  rw [hbefore'] at hfar hback
  exact ⟨h, hcount, hencode, hreference 10100 rfl, (hlost 1 (by decide) rfl).1, hclose, hstep, hfar,
    hback⟩

end Report

end MediaRelay
