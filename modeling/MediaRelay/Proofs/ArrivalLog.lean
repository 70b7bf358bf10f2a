import Mathlib.Algebra.Group.Int.Defs
import MediaRelay.ArrivalLog
import MediaRelay.Proofs.FrameHistory
import MediaRelay.Proofs.Wire.Messages

/-!
The log of arrivals and the reports drawn from it. What is noted stays pending until a report is
taken; the report says of each number in its range whether it was pending
(`ArrivalLog.takeReport_of_range?`), and it can be written.
-/

namespace MediaRelay

namespace Serial

/-- A signed word holds the numbers that lie within it. -/
theorem signed64_eq_iff {n : Int} : signed64 n = n ↔ -2 ^ 63 ≤ n ∧ n < 2 ^ 63 := by
  have hlow : -(turn 64 / 2 : Int) ≤ signed64 n := Int.le_bmod (by decide)
  have hhigh : signed64 n < (turn 64 + 1) / 2 := Int.bmod_lt (by decide)
  constructor
  · intro h
    rw [h] at hlow hhigh
    exact ⟨hlow, hhigh⟩
  · rintro ⟨hlow, hhigh⟩
    exact Int.bmod_eq_of_le hlow hhigh

end Serial

namespace Status

theorem length_quantize (rebuilt : Int) (times : List (Option Nat)) :
    (quantize rebuilt times).length = times.length := by
  induction times generalizing rebuilt with
  | nil => rfl
  | cons time rest ih => cases time <;> simp [quantize, ih]

theorem nearest_isWritable (distance : Int) : (received (nearest distance)).IsWritable :=
  ⟨_, rfl, by omega, by omega⟩

theorem quantize_isWritable {rebuilt : Int} {times : List (Option Nat)} {s : Status}
    (h : s ∈ quantize rebuilt times) : s.IsWritable := by
  induction times generalizing rebuilt with
  | nil => cases h
  | cons time rest ih =>
    cases time with
    | none =>
      obtain rfl | h := List.mem_cons.mp h
      · trivial
      · exact ih h
    | some time =>
      obtain rfl | h := List.mem_cons.mp h
      · exact nearest_isWritable _
      · exact ih h

/-- Rounding and rebuilding move arrival times, but neither loses nor invents an arrival. -/
theorem rebuild_quantize (time? : Nat → Option Nat) (base count : Nat) (rebuilt now : Int) :
    (rebuild (.ofNat base) now (quantize rebuilt ((List.range' base count).map time?))).map
        (fun a => (a.1, a.2.isSome)) =
      (List.range' base count).map fun number => (.ofNat number, (time? number).isSome) := by
  induction count generalizing base rebuilt now with
  | zero => rfl
  | succ count ih =>
    have hnext : UInt32.ofNat base + 1 = .ofNat (base + 1) := (UInt32.ofNat_add base 1).symm
    rw [List.range'_succ, List.map_cons, List.map_cons]
    cases ht : time? base with
    | none => simp only [quantize, rebuild, List.map_cons, hnext, ih, Option.isSome_none]
    | some time => simp only [quantize, rebuild, List.map_cons, hnext, ih, Option.isSome_some]

end Status

namespace Report

/-- Whether each packet of the range arrived. -/
def verdicts (r : Report) : List (UInt32 × Bool) := r.arrivals.map fun a => (a.1, a.2.isSome)

theorem ofArrivals_isWritable (base : UInt32) (times : List (Option Nat)) :
    (ofArrivals base times).IsWritable := by
  refine ⟨?_, fun _ => Status.quantize_isWritable⟩
  rw [packetCount, ofArrivals, Status.length_quantize]
  exact List.length_take_le _ _

theorem verdicts_ofArrivals (time? : Nat → Option Nat) (base : Nat) {count : Nat}
    (h : count ≤ maxPackets) :
    (ofArrivals (.ofNat base) ((List.range' base count).map time?)).verdicts =
      (List.range' base count).map fun number => (.ofNat number, (time? number).isSome) := by
  rw [verdicts, arrivals, ofArrivals, List.take_of_length_le (by simpa using h)]
  exact Status.rebuild_quantize time? base count _ _

end Report

namespace ArrivalLog

/-- The number that a packet is known by. -/
def numberOf (log : ArrivalLog) (sequence : UInt32) : Nat :=
  Serial.extend 32 log.highest sequence.toNat

/-- The next report begins behind the number. -/
def IsPast (log : ArrivalLog) (number : Nat) : Prop :=
  ∃ base, log.nextBase = some base ∧ number < base

theorem any_iff_isPast {log : ArrivalLog} {number : Nat} :
    log.nextBase.any (number < ·) ↔ log.IsPast number := by
  simp [IsPast, Option.any_eq_true]

instance (log : ArrivalLog) (number : Nat) : Decidable (log.IsPast number) :=
  decidable_of_iff _ any_iff_isPast

/-- Before the first report nothing comes too late. -/
theorem not_isPast_of_none {log : ArrivalLog} (h : log.nextBase = none) (number : Nat) :
    ¬log.IsPast number := by
  rintro ⟨base, hbase, -⟩
  rw [h] at hbase
  cases hbase

structure Grounded (log : ArrivalLog) : Prop where
  /-- Numbers start one turn in, so that numbers from before the first have a place. -/
  turned : ∀ n, log.highest = some n → Serial.turn 32 ≤ n
  /-- What is pending was seen. -/
  seen : ∀ k, log.pending.contains k → ∃ n, log.highest = some n ∧ k ≤ n
  /-- What was reported was seen. -/
  reported : ∀ base, log.nextBase = some base → ∃ n, log.highest = some n ∧ base ≤ n + 1

theorem grounded_empty (epoch : Time) : (empty epoch).Grounded := ⟨nofun, nofun, nofun⟩

variable {log : ArrivalLog}

/-- A number shows in its lowest bits as the sequence number it came with. -/
theorem Grounded.ofNat_numberOf (hg : log.Grounded) (sequence : UInt32) :
    UInt32.ofNat (log.numberOf sequence) = sequence := by
  have hlt := sequence.toNat_lt
  have hmod : log.numberOf sequence % 2 ^ 32 = sequence.toNat % 2 ^ 32 := by
    unfold numberOf
    cases hn : log.highest with
    | none => exact Nat.add_mod_left _ _
    | some n => exact (Serial.extend_near sequence.toNat (hg.turned n hn)).1
  refine UInt32.toNat_inj.mp ?_
  rw [UInt32.toNat_ofNat', hmod, Nat.mod_eq_of_lt hlt]

section Record

variable (sequence timestamp : UInt32) (clockRate size : Nat) (now : Time)

theorem record_of_not_isPast (h : ¬log.IsPast (log.numberOf sequence)) :
    log.record sequence timestamp clockRate size now =
      let media := mediaTime log.lastTimestamp timestamp
      { log with
        highest := some (Serial.raise log.highest (log.numberOf sequence))
        lastTimestamp := some (timestamp, media)
        pending := log.pending.insertIfNew (log.numberOf sequence)
          ⟨Time.since now log.epoch, micros media clockRate, size⟩ } := by
  exact if_neg fun hany => h (any_iff_isPast.mp hany)

/-- A packet that comes too late for a report leaves no trace. -/
theorem Grounded.record_of_isPast (hg : log.Grounded) (h : log.IsPast (log.numberOf sequence)) :
    log.record sequence timestamp clockRate size now = log := by
  have hany := any_iff_isPast.mpr h
  obtain ⟨base, hbase, hlt⟩ := h
  obtain ⟨n, hn, hle⟩ := hg.reported base hbase
  have hraise : some (Serial.raise log.highest (log.numberOf sequence)) = log.highest := by
    rw [hn, Serial.raise, Option.getD_some, Nat.max_eq_right (by omega)]
  exact (if_pos hany).trans (congrArg (fun highest => { log with highest }) hraise)

/-- A packet that is not ignored needs a media time that fits. -/
theorem record?_eq_some_iff {log' : ArrivalLog} :
    log.record? sequence timestamp clockRate size now = some log' ↔
      (log.IsPast (log.numberOf sequence) ∨ Fits (mediaTime log.lastTimestamp timestamp)) ∧
        log.record sequence timestamp clockRate size now = log' := by
  rw [← any_iff_isPast]
  exact Option.ite_none_right_eq_some.trans (and_congr_right fun _ => Option.some_inj)

/-- What is pending stays pending. -/
theorem pending_record {k : Nat} (h : log.pending.contains k) :
    (log.record sequence timestamp clockRate size now).pending.contains k := by
  unfold record
  simp only
  split
  · exact h
  · exact Table.contains_insertIfNew.mpr (.inr h)

/-- A packet that is not too late is pending. -/
theorem contains_record (h : ¬log.IsPast (log.numberOf sequence)) :
    (log.record sequence timestamp clockRate size now).pending.contains (log.numberOf sequence) := by
  rw [record_of_not_isPast sequence timestamp clockRate size now h]
  exact Table.contains_insertIfNew.mpr (.inl rfl)

theorem Grounded.record (hg : log.Grounded) :
    (log.record sequence timestamp clockRate size now).Grounded := by
  by_cases hpast : log.IsPast (log.numberOf sequence)
  · rwa [hg.record_of_isPast sequence timestamp clockRate size now hpast]
  rw [record_of_not_isPast sequence timestamp clockRate size now hpast]
  have hraised : ∀ n, log.highest = some n →
      n ≤ Serial.raise log.highest (log.numberOf sequence) := by
    intro n hn
    rw [hn]
    exact Nat.le_max_right _ _
  refine ⟨?_, fun k hk => ⟨_, rfl, ?_⟩, fun base hbase => ⟨_, rfl, ?_⟩⟩
  · rintro _ ⟨⟩
    cases hn : log.highest with
    | none =>
      rw [numberOf, hn]
      exact Nat.le_trans (Nat.le_add_right _ _) (Nat.le_max_left _ _)
    | some n => exact Nat.le_trans (hg.turned n hn) (hn ▸ hraised n hn)
  · obtain rfl | hk := Table.contains_insertIfNew.mp hk
    · exact Nat.le_max_left _ _
    · obtain ⟨n, hn, hle⟩ := hg.seen k hk
      exact Nat.le_trans hle (hraised n hn)
  · obtain ⟨n, hn, hle⟩ := hg.reported base hbase
    exact Nat.le_trans hle (Nat.succ_le_succ (hraised n hn))

/-- What is noted fits, and what is not noted would not. -/
theorem Grounded.fits_record_iff (hg : log.Grounded) (hfits : log.fits) :
    (log.record sequence timestamp clockRate size now).fits ↔
      (log.record? sequence timestamp clockRate size now).isSome := by
  simp only [Option.isSome_iff_exists, record?_eq_some_iff, exists_and_left, exists_eq', and_true]
  by_cases hpast : log.IsPast (log.numberOf sequence)
  · rw [hg.record_of_isPast _ _ _ _ _ hpast]
    simp [hfits, hpast]
  · rw [record_of_not_isPast _ _ _ _ _ hpast]
    simp [fits, hpast]

end Record

/-- The range ends at the last number pending and holds what is pending, but for numbers that lie
further back than one report reaches. -/
theorem range?_spec {base last : Nat} (h : log.range? = some (base, last)) :
    log.pending.contains last ∧ (∀ k, log.pending.contains k → k ≤ last) ∧ base ≤ last ∧
      last < base + Report.maxPackets ∧
      ∀ k, log.pending.contains k → base ≤ k ∨ k + Report.maxPackets ≤ last := by
  simp only [range?, Option.bind_eq_bind, Option.bind_eq_some_iff, Option.pure_def,
    Option.some.injEq, Prod.mk.injEq] at h
  obtain ⟨⟨first, arrival⟩, hfirst, ⟨end', arrival'⟩, hlast, hbase, rfl⟩ := h
  obtain ⟨hfirst, hlow⟩ := Table.first?_spec hfirst
  obtain ⟨hlast, hhigh⟩ := Table.last?_spec hlast
  have hends : first ≤ end' := hlow end' (Table.contains_of_get? hlast)
  have hmax : 0 < Report.maxPackets := by decide
  refine ⟨Table.contains_of_get? hlast, hhigh, ?_, ?_, fun k hk => ?_⟩
  · split at hbase <;> omega
  · split at hbase <;> omega
  · have hk : first ≤ k := hlow k hk
    split at hbase <;> omega

theorem exists_range? {k : Nat} (h : log.pending.contains k) :
    ∃ base last, log.range? = some (base, last) := by
  obtain ⟨first, hfirst⟩ := Table.exists_first? h
  obtain ⟨last, hlast⟩ := Table.exists_last? h
  exact ⟨_, _, by rw [range?, hfirst, hlast]; rfl⟩

/-- A report leaves what the next packet is measured by. -/
theorem takeReport_fields (log : ArrivalLog) :
    log.takeReport.1.epoch = log.epoch ∧ log.takeReport.1.highest = log.highest ∧
      log.takeReport.1.lastTimestamp = log.lastTimestamp := by
  rw [takeReport]
  split <;> exact ⟨rfl, rfl, rfl⟩

/-- A report says of each number in its range whether it was pending, and can be written. -/
theorem takeReport_of_range? {base last : Nat} (h : log.range? = some (base, last)) :
    ∃ report deliveries, log.takeReport =
        ({ log with nextBase := some (last + 1), pending := ∅ }, some (report, deliveries)) ∧
      report.IsWritable ∧ report.verdicts = (List.range' base (last + 1 - base)).map
        fun number => (.ofNat number, log.pending.contains number) := by
  obtain ⟨-, -, hle, hspan, -⟩ := range?_spec h
  refine ⟨_, _, by rw [takeReport, h], Report.ofArrivals_isWritable _ _, ?_⟩
  rw [Report.verdicts_ofArrivals _ _ (by omega)]
  simp only [Option.isSome_map, Table.contains]

theorem Grounded.takeReport (hg : log.Grounded) : log.takeReport.1.Grounded := by
  cases hr : log.range? with
  | none =>
    rw [ArrivalLog.takeReport, hr]
    exact hg
  | some range =>
    obtain ⟨base, last⟩ := range
    obtain ⟨_, _, htake, -, -⟩ := takeReport_of_range? hr
    rw [htake]
    obtain ⟨n, hn, hle⟩ := hg.seen last (range?_spec hr).1
    refine ⟨hg.turned, nofun, ?_⟩
    rintro _ ⟨⟩
    exact ⟨n, hn, Nat.succ_le_succ hle⟩

end ArrivalLog

end MediaRelay
