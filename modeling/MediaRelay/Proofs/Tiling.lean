import MediaRelay.Proofs.ArrivalLog

/-!
How the reports on a stream tile its sequence numbers. A period says what there is to report: the
packets that came since the last report, with their numbers, and how far that report went. The log
of arrivals follows it (`Follows.step`), and a report covers the numbers from where the last one
ended up to the highest of a packet, or the newest of them (`run_report_tiles`).
-/

namespace MediaRelay.ArrivalLog

/-- A packet as it comes in. -/
structure Packet where
  sequence : UInt32
  timestamp : UInt32
  clockRate : Nat
  size : Nat
  now : Time

/-- What is done with a log: a packet is noted, or a report is taken. -/
inductive Act
  | packet (p : Packet)
  | report

def step (log : ArrivalLog) : Act → ArrivalLog
  | .packet p => log.record p.sequence p.timestamp p.clockRate p.size p.now
  | .report => log.takeReport.1

def run (log : ArrivalLog) (acts : List Act) : ArrivalLog := acts.foldl step log

/-- What a stream has brought since the last report on it. -/
structure Period where
  highest : Option Nat
  /-- The last number that was reported on. -/
  told : Option Nat
  /-- The packets with their numbers, those too that come too late. -/
  packets : List (Nat × Packet)

namespace Period

def start : Period := ⟨none, none, []⟩

/-- The number lies behind the last report. -/
def IsOpen (period : Period) (n : Nat) : Prop := ∀ m, period.told = some m → m < n

instance (period : Period) (n : Nat) : Decidable (period.IsOpen n) :=
  decidable_of_iff (period.told.all (· < n)) (by simp [IsOpen, Option.all_eq_true])

/-- The numbers of the packets that are to be reported. -/
def due (period : Period) : List Nat := (period.packets.map (·.1)).filter period.IsOpen

/-- The first packet of a number. -/
def first? (period : Period) (n : Nat) : Option Packet :=
  (period.packets.find? (·.1 = n)).map (·.2)

def note (period : Period) (p : Packet) : Period :=
  let number := Serial.extend 32 period.highest p.sequence.toNat
  { period with
    highest := some (Serial.raise period.highest number)
    packets := period.packets ++ [(number, p)] }

/-- A report ends at the highest number that is due. -/
def close (period : Period) : Period :=
  match period.due.max? with
  | none => period
  | some last => { period with told := some last, packets := [] }

def step (period : Period) : Act → Period
  | .packet p => period.note p
  | .report => period.close

def run (period : Period) (acts : List Act) : Period := acts.foldl step period

/-- The numbers that the report on a period covers, from first to last. -/
structure Spans (period : Period) (base last : Nat) : Prop where
  ends : last ∈ period.due ∧ ∀ n ∈ period.due, n ≤ last
  nonempty : base ≤ last
  fits : last < base + Report.maxPackets
  /-- It begins where the last report ended, or covers the newest numbers. -/
  continues : ∀ m, period.told = some m →
    base = m + 1 ∨ m + 1 < base ∧ last + 1 = base + Report.maxPackets
  /-- The first report begins at the lowest number, or covers the newest. -/
  begins : period.told = none → (base ∈ period.due ∧ ∀ n ∈ period.due, base ≤ n) ∨
    (∃ n ∈ period.due, n < base) ∧ last + 1 = base + Report.maxPackets

/-- What a report says of its numbers, and what its deliveries say. -/
structure Tells (period : Period) (epoch : Time) (base last : Nat) (report : Report)
    (deliveries : List Delivery) : Prop where
  arrived : report.verdicts = (List.range' base (last + 1 - base)).map
    fun n => (.ofNat n, (period.first? n).isSome)
  heard : (deliveries.map fun d => (d.sequence, d.arrival, d.size)) =
    (List.range' base (last + 1 - base)).map fun n =>
      (.ofNat n, (period.first? n).map fun p => Serial.signed64 (Time.since p.now epoch),
        ((period.first? n).map (·.size)).getD 0)
  agree : (deliveries.map fun d => (d.sequence, d.arrival.isSome)) = report.verdicts

variable {period : Period}

theorem mem_due_iff {n : Nat} :
    n ∈ period.due ↔ period.IsOpen n ∧ (period.first? n).isSome := by
  rw [due, List.mem_filter, decide_eq_true_iff, and_comm, first?, Option.isSome_map,
    List.find?_isSome, List.mem_map]
  simp only [decide_eq_true_iff]

theorem first?_note (period : Period) (p : Packet) (n : Nat) :
    (period.note p).first? n =
      (period.first? n).or
        (if Serial.extend 32 period.highest p.sequence.toNat = n then some p else none) := by
  rw [first?, note, List.find?_append, Option.map_or]
  congr 1
  by_cases hn : Serial.extend 32 period.highest p.sequence.toNat = n <;> simp [hn]

/-- A report ends behind the one before. -/
theorem told_step {m : Nat} (h : period.told = some m) (act : Act) :
    ∃ m', (period.step act).told = some m' ∧ m ≤ m' := by
  cases act with
  | packet p => exact ⟨m, h, Nat.le_refl _⟩
  | report =>
    rw [step, close]
    split
    · exact ⟨m, h, Nat.le_refl _⟩
    · rename_i last hlast
      have hopen := (mem_due_iff.mp (List.max?_mem hlast)).1
      exact ⟨last, rfl, Nat.le_of_lt (hopen m h)⟩

theorem told_run {m : Nat} (h : period.told = some m) (acts : List Act) :
    ∃ m', (period.run acts).told = some m' ∧ m ≤ m' := by
  induction acts generalizing period m with
  | nil => exact ⟨m, h, Nat.le_refl _⟩
  | cons act acts ih =>
    obtain ⟨m', hstep, hle⟩ := told_step h act
    obtain ⟨m'', hrun, hle'⟩ := ih hstep
    exact ⟨m'', hrun, Nat.le_trans hle hle'⟩

end Period

variable {log : ArrivalLog} {period : Period}

/-- The log has what the next report needs of a period. -/
structure Follows (log : ArrivalLog) (period : Period) : Prop where
  grounded : log.Grounded
  highest : log.highest = period.highest
  nextBase : log.nextBase = period.told.map (· + 1)
  pending : ∀ n, ((log.pending.get? n).map fun a => (a.time, a.size)) =
    if period.IsOpen n then (period.first? n).map fun p => (Time.since p.now log.epoch, p.size)
    else none
  numbered : ∀ entry ∈ period.packets, UInt32.ofNat entry.1 = entry.2.sequence

theorem follows_start (epoch : Time) : Follows (empty epoch) .start where
  grounded := grounded_empty epoch
  highest := rfl
  nextBase := rfl
  pending n := by
    split <;> rfl
  numbered := by
    intro entry hentry
    cases hentry

theorem Follows.isPast_iff (h : Follows log period) (n : Nat) :
    log.IsPast n ↔ ¬period.IsOpen n := by
  rw [IsPast, h.nextBase, Period.IsOpen]
  cases period.told with
  | none => simp
  | some m =>
    constructor
    · rintro ⟨base, ⟨⟩, hlt⟩ hopen
      exact Nat.not_lt_of_le (Nat.le_of_lt_succ hlt) (hopen m rfl)
    · intro hclosed
      refine ⟨m + 1, rfl, Nat.lt_succ_of_le (Nat.le_of_not_lt fun hlt => hclosed ?_)⟩
      rintro m' ⟨⟩
      exact hlt

theorem Follows.contains_iff (h : Follows log period) (n : Nat) :
    log.pending.contains n ↔ n ∈ period.due := by
  have hpending := congrArg Option.isSome (h.pending n)
  rw [Option.isSome_map] at hpending
  rw [Table.contains, hpending, Period.mem_due_iff]
  split <;> simp [*]

theorem Follows.numberOf_eq (h : Follows log period) (sequence : UInt32) :
    log.numberOf sequence = Serial.extend 32 period.highest sequence.toNat := by
  rw [numberOf, h.highest]

section Record

variable (log) (sequence timestamp : UInt32) (clockRate size : Nat) (now : Time)

theorem record_fields :
    (log.record sequence timestamp clockRate size now).highest =
        some (Serial.raise log.highest (log.numberOf sequence)) ∧
      (log.record sequence timestamp clockRate size now).nextBase = log.nextBase ∧
      (log.record sequence timestamp clockRate size now).epoch = log.epoch := by
  unfold record
  simp only
  split <;> exact ⟨rfl, rfl, rfl⟩

/-- A packet counts if it is the first of its number. -/
theorem record_get? (h : ¬log.IsPast (log.numberOf sequence)) (n : Nat) :
    (log.record sequence timestamp clockRate size now).pending.get? n =
      (log.pending.get? n).or
        (if log.numberOf sequence = n then
          some ⟨Time.since now log.epoch, micros (mediaTime log.lastTimestamp timestamp) clockRate,
            size⟩
        else none) := by
  rw [record_of_not_isPast sequence timestamp clockRate size now h, Table.get?_insertIfNew]
  by_cases hn : log.numberOf sequence = n
  · subst hn
    rw [if_pos rfl, if_pos rfl]
    cases log.pending.get? (log.numberOf sequence) <;> rfl
  · rw [if_neg (mt Key.rank_inj (Ne.symm hn)), if_neg hn, Option.or_none]

end Record

/-- Late or not, a packet is to the log what it is to the period. -/
theorem Follows.pending_note (h : Follows log period) (p : Packet) (n : Nat) :
    (((log.step (.packet p)).pending.get? n).map fun a => (a.time, a.size)) =
      if period.IsOpen n then
        ((period.note p).first? n).map fun p => (Time.since p.now log.epoch, p.size)
      else none := by
  rw [Period.first?_note, ← h.numberOf_eq]
  by_cases hpast : log.IsPast (log.numberOf p.sequence)
  · rw [step, h.grounded.record_of_isPast _ _ _ _ _ hpast, h.pending]
    refine ite_congr rfl (fun hopen => ?_) fun _ => rfl
    have hne : log.numberOf p.sequence ≠ n := by
      rintro rfl
      exact (h.isPast_iff _).mp hpast hopen
    rw [if_neg hne, Option.or_none]
  · rw [step, record_get? log _ _ _ _ _ hpast, Option.map_or, h.pending]
    split
    · rw [Option.map_or]
      split <;> rfl
    · rename_i hclosed
      have hne : log.numberOf p.sequence ≠ n := by
        rintro rfl
        exact hpast ((h.isPast_iff _).mpr hclosed)
      rw [if_neg hne, Option.map_none, Option.or_none]

theorem Follows.note (h : Follows log period) (p : Packet) :
    Follows (log.step (.packet p)) (period.note p) := by
  obtain ⟨hhighest, hnextBase, hepoch⟩ :=
    record_fields log p.sequence p.timestamp p.clockRate p.size p.now
  refine ⟨h.grounded.record _ _ _ _ _, ?_, hnextBase.trans h.nextBase, fun n => ?_,
    fun entry hentry => ?_⟩
  · rw [step, hhighest, h.numberOf_eq, h.highest, Period.note]
  · rw [h.pending_note, step, hepoch]
    rfl
  · obtain hentry | hentry := List.mem_append.mp hentry
    · exact h.numbered entry hentry
    · obtain rfl := List.mem_singleton.mp hentry
      rw [← h.numberOf_eq]
      exact h.grounded.ofNat_numberOf p.sequence

theorem range?_base {base last : Nat} (h : log.range? = some (base, last)) :
    ∃ first, log.pending.contains first ∧ (∀ k, log.pending.contains k → first ≤ k) ∧
      base = max (min (log.nextBase.getD first) first) (last + 1 - Report.maxPackets) := by
  simp only [range?, Option.bind_eq_bind, Option.bind_eq_some_iff, Option.pure_def,
    Option.some.injEq, Prod.mk.injEq] at h
  obtain ⟨⟨first, arrival⟩, hfirst, ⟨end', arrival'⟩, hlast, hbase, rfl⟩ := h
  obtain ⟨hfirst, hlow⟩ := Table.first?_spec hfirst
  have hends : first ≤ end' := hlow end' (Table.contains_of_get? (Table.last?_spec hlast).1)
  refine ⟨first, Table.contains_of_get? hfirst, hlow, ?_⟩
  dsimp only at hbase hends
  split at hbase <;> omega

theorem range?_eq_none_iff : log.range? = none ↔ log.pending.isEmpty := by
  constructor
  · intro h
    by_contra hpending
    obtain ⟨k, hk⟩ := Table.exists_contains (Bool.eq_false_iff.mpr hpending)
    obtain ⟨base, last, hrange⟩ := exists_range? hk
    rw [h] at hrange
    cases hrange
  · intro h
    refine Option.eq_none_iff_forall_ne_some.mpr fun ⟨base, last⟩ hrange => ?_
    rw [Table.isEmpty_eq_false (range?_spec hrange).1] at h
    cases h

theorem Follows.spans {base last : Nat} (h : Follows log period)
    (hrange : log.range? = some (base, last)) : period.Spans base last := by
  obtain ⟨hlast, hhigh, hle, hfits, -⟩ := range?_spec hrange
  obtain ⟨first, hfirst, hlow, hbase⟩ := range?_base hrange
  rw [h.nextBase] at hbase
  simp only [h.contains_iff] at hlast hhigh hfirst hlow
  refine ⟨⟨hlast, hhigh⟩, hle, hfits, fun m hm => ?_, fun hnone => ?_⟩
  · have hopen : m < first := (Period.mem_due_iff.mp hfirst).1 m hm
    rw [hm, Option.map_some, Option.getD_some] at hbase
    omega
  · rw [hnone, Option.map_none, Option.getD_none, Nat.min_self] at hbase
    by_cases hall : last + 1 - Report.maxPackets ≤ first
    · rw [Nat.max_eq_left hall] at hbase
      exact .inl ⟨hbase ▸ hfirst, hbase ▸ hlow⟩
    · exact .inr ⟨⟨first, hfirst, by omega⟩, by omega⟩

theorem Follows.due_max? {base last : Nat} (h : Follows log period)
    (hrange : log.range? = some (base, last)) : period.due.max? = some last :=
  List.max?_eq_some_iff.mpr (h.spans hrange).ends

theorem Follows.due_eq_nil_iff (h : Follows log period) :
    period.due = [] ↔ log.pending.isEmpty := by
  rw [List.eq_nil_iff_forall_not_mem, Table.isEmpty_iff]
  refine forall_congr' fun n => ?_
  rw [← h.contains_iff, Table.contains, Bool.not_eq_true, Option.isSome_eq_false_iff,
    Option.isNone_iff_eq_none]

theorem Follows.report (h : Follows log period) : Follows (log.step .report) period.close := by
  have hgrounded : (log.step .report).Grounded := h.grounded.takeReport
  cases hrange : log.range? with
  | none =>
    have hdue := h.due_eq_nil_iff.mpr (range?_eq_none_iff.mp hrange)
    have hclose : period.close = period := by rw [Period.close, hdue, List.max?_nil]
    have htake : log.step .report = log := by rw [step, takeReport, hrange]
    rwa [hclose, htake]
  | some range =>
    obtain ⟨base, last⟩ := range
    have hclose : period.close = { period with told := some last, packets := [] } := by
      rw [Period.close, h.due_max? hrange]
    have htake : log.step .report = { log with nextBase := some (last + 1), pending := ∅ } := by
      rw [step, takeReport, hrange]
    rw [hclose, htake]
    refine ⟨htake ▸ hgrounded, h.highest, rfl, fun n => ?_, fun entry hentry => ?_⟩
    · split <;> rfl
    · cases hentry

theorem Follows.step (h : Follows log period) (act : Act) :
    Follows (log.step act) (period.step act) := by
  cases act with
  | packet p => exact h.note p
  | report => exact h.report

theorem Follows.run (h : Follows log period) (acts : List Act) :
    Follows (log.run acts) (period.run acts) := by
  induction acts generalizing log period with
  | nil => exact h
  | cons act acts ih => exact ih (h.step act)

/-- Of a number behind the last report the log has the first packet. -/
theorem Follows.delivery {n : Nat} (h : Follows log period) (hopen : period.IsOpen n) :
    (log.delivery n).arrival =
        (period.first? n).map (fun p => Serial.signed64 (Time.since p.now log.epoch)) ∧
      (log.delivery n).size = ((period.first? n).map (·.size)).getD 0 := by
  have hpending := h.pending n
  rw [if_pos hopen] at hpending
  cases hget : log.pending.get? n with
  | none =>
    rw [hget, Option.map_none, eq_comm, Option.map_eq_none_iff] at hpending
    simp only [ArrivalLog.delivery, hget, hpending, Option.map_none, Option.getD_none, and_self]
  | some a =>
    rw [hget, Option.map_some, eq_comm, Option.map_eq_some_iff] at hpending
    obtain ⟨p, hfirst, heq⟩ := hpending
    obtain ⟨htime, hsize⟩ := Prod.mk.inj heq
    simp only [ArrivalLog.delivery, hget, hfirst, htime, hsize, Option.map_some, Option.getD_some,
      and_self]

theorem Follows.tells {base last : Nat} (h : Follows log period)
    (hrange : log.range? = some (base, last)) :
    ∃ report deliveries, log.takeReport.2 = some (report, deliveries) ∧
      period.Tells log.epoch base last report deliveries := by
  have hspans := h.spans hrange
  have hopen : ∀ n ∈ List.range' base (last + 1 - base), period.IsOpen n := by
    intro n hn m hm
    have hbase := hspans.continues m hm
    have hle := (List.mem_range'_1.mp hn).1
    omega
  have hcount : last + 1 - base ≤ Report.maxPackets := by
    have hfits := hspans.fits
    omega
  refine ⟨_, _, by rw [takeReport, hrange], ?_, ?_, ?_⟩
  · rw [Report.verdicts_ofArrivals _ base hcount]
    refine List.map_congr_left fun n hn => Prod.ext rfl ?_
    have harrival := congrArg Option.isSome (h.delivery (hopen n hn)).1
    rwa [ArrivalLog.delivery, Option.isSome_map, Option.isSome_map, ← Option.isSome_map] at harrival
  · rw [List.map_map]
    refine List.map_congr_left fun n hn => ?_
    obtain ⟨harrival, hsize⟩ := h.delivery (hopen n hn)
    exact Prod.ext rfl (Prod.ext harrival hsize)
  · rw [List.map_map, Report.verdicts_ofArrivals _ base hcount]
    refine List.map_congr_left fun n _ => Prod.ext rfl ?_
    rw [Option.isSome_map]
    exact Option.isSome_map

theorem step_epoch (log : ArrivalLog) (act : Act) : (log.step act).epoch = log.epoch := by
  cases act with
  | packet p => exact (record_fields log _ _ _ _ _).2.2
  | report => exact (takeReport_fields log).1

theorem run_epoch (log : ArrivalLog) (acts : List Act) : (log.run acts).epoch = log.epoch := by
  induction acts generalizing log with
  | nil => rfl
  | cons act acts ih => exact (ih (log.step act)).trans (log.step_epoch act)

theorem takeReport_eq_none_iff : log.takeReport.2 = none ↔ log.pending.isEmpty := by
  rw [← range?_eq_none_iff, takeReport]
  split <;> simp [*]

theorem takeReport_isEmpty : log.takeReport.1.pending.isEmpty := by
  cases hrange : log.range? with
  | none =>
    rw [takeReport, hrange]
    exact range?_eq_none_iff.mp hrange
  | some range =>
    rw [takeReport, hrange]
    rfl

/-- A report ends where the period closes, and behind all reports before. -/
theorem Period.Spans.told_close {base last : Nat} (h : period.Spans base last) :
    period.close.told = some last := by
  rw [Period.close, List.max?_eq_some_iff.mpr h.ends]

theorem Period.Spans.lt_base {base last m : Nat} (h : period.Spans base last)
    (hm : period.told = some m) : m < base := by
  have hbase := h.continues m hm
  omega

/-- Reports tile the numbers of a stream. A report is there if something is pending, and leaves
nothing pending. It covers at most as many numbers as a report can hold, up to the last one pending,
from behind the last number of the report before, and no number that an earlier report covers. A
number arrived if a packet of that number came in since the last report, and the first of them says
when and how large. -/
theorem run_report_tiles (epoch : Time) (acts : List Act) :
    let log := (empty epoch).run acts
    let period := Period.start.run acts
    (∀ n, log.pending.contains n ↔ n ∈ period.due) ∧
    (∀ entry ∈ period.packets, UInt32.ofNat entry.1 = entry.2.sequence) ∧
    (log.takeReport.2 = none ↔ log.pending.isEmpty) ∧
    log.takeReport.1.pending.isEmpty ∧
    ∀ report deliveries, log.takeReport.2 = some (report, deliveries) → ∃ base last,
      period.Spans base last ∧ period.Tells epoch base last report deliveries ∧
      (Period.start.run (acts ++ [.report])).told = some last ∧
      ∀ earlier, earlier ++ [.report] <+: acts →
        ∀ m, (Period.start.run (earlier ++ [.report])).told = some m → m < base := by
  intro log period
  have hfollows : Follows log period := (follows_start epoch).run acts
  refine ⟨hfollows.contains_iff, hfollows.numbered, takeReport_eq_none_iff, takeReport_isEmpty,
    fun report deliveries htake => ?_⟩
  have hrange : ¬log.range? = none := by
    rw [range?_eq_none_iff, ← takeReport_eq_none_iff, htake]
    exact Option.some_ne_none _
  obtain ⟨⟨base, last⟩, hrange⟩ := Option.ne_none_iff_exists'.mp hrange
  have hspans := hfollows.spans hrange
  obtain ⟨report', deliveries', htake', htells⟩ := hfollows.tells hrange
  obtain ⟨rfl, rfl⟩ := Prod.mk.inj (Option.some.inj (htake.symm.trans htake'))
  rw [run_epoch] at htells
  refine ⟨base, last, hspans, htells, ?_, fun earlier hearlier m hm => ?_⟩
  · rw [Period.run, List.foldl_concat]
    exact hspans.told_close
  · obtain ⟨rest, rfl⟩ := hearlier
    obtain ⟨m', hm', hle⟩ := Period.told_run hm rest
    rw [Period.run, Period.run, ← List.foldl_append] at hm'
    exact Nat.lt_of_le_of_lt hle (hspans.lt_base hm')

end MediaRelay.ArrivalLog
