import Mathlib.Data.List.Induction
import Mathlib.Data.List.Nodup
import Mathlib.Data.List.Perm.Subperm
import MediaRelay.SendLog

/-!
What a send log makes of packets and reports. The log holds a packet by the latest entry under its
number, from that entry until a report settles it or it falls out of the queue (`step_get?`,
`exists_sent`), and holds no more packets than it has room for (`Sound.size_le`).
-/

namespace MediaRelay

/-- The report tells what became of a packet of that number. -/
def Report.Covers (r : Report) (sequence : UInt32) : Prop := sequence ∈ r.arrivals.map (·.1)

instance (r : Report) (sequence : UInt32) : Decidable (r.Covers sequence) :=
  inferInstanceAs (Decidable (sequence ∈ r.arrivals.map (·.1)))

/-- What is told of a packet that was sent. -/
def SentPacket.told (packet : SentPacket) (epoch : Time) (sequence : UInt32)
    (arrival : Option Int) : Delivery :=
  { sequence, arrival
    sent := Serial.signed64 (Time.since packet.sent epoch)
    size := packet.size }

namespace SendLog

variable {log : SendLog} {s : UInt32}

section Settling

variable (log) (epoch : Time) (entries : List (UInt32 × Option Int))

theorem settle_of_none {sequence : UInt32} (h : log.packets.get? sequence = none)
    (arrival : Option Int) : log.settle epoch sequence arrival = (log, none) := by
  rw [settle, h]

theorem settle_of_some {sequence : UInt32} {packet : SentPacket}
    (h : log.packets.get? sequence = some packet) (arrival : Option Int) :
    log.settle epoch sequence arrival =
      ({ log with packets := log.packets.erase sequence },
        some (packet.told epoch sequence arrival)) := by
  rw [settle, h]
  rfl

theorem settleAll_order :
    (log.settleAll epoch entries).1.order = log.order ∧
      (log.settleAll epoch entries).1.capacity = log.capacity := by
  induction entries generalizing log with
  | nil => exact ⟨rfl, rfl⟩
  | cons entry rest ih =>
    obtain ⟨sequence, arrival⟩ := entry
    rw [settleAll]
    cases hpacket : log.packets.get? sequence with
    | none => simpa only [settle_of_none log epoch hpacket] using ih log
    | some packet => simpa only [settle_of_some log epoch hpacket] using ih _

/-- What was settled is not in the log any more. -/
theorem settleAll_get? :
    (log.settleAll epoch entries).1.packets.get? s =
      if s ∈ entries.map (·.1) then none else log.packets.get? s := by
  induction entries generalizing log with
  | nil => rfl
  | cons entry rest ih =>
    obtain ⟨sequence, arrival⟩ := entry
    rw [settleAll]
    cases hpacket : log.packets.get? sequence with
    | none =>
      simp only [settle_of_none log epoch hpacket, ih, List.map_cons, List.mem_cons]
      by_cases hs : s = sequence
      · simp [hs, hpacket]
      · simp only [hs, false_or]
    | some packet =>
      simp only [settle_of_some log epoch hpacket, ih, List.map_cons, List.mem_cons]
      by_cases hs : s = sequence
      · simp [hs]
      · simp only [hs, false_or, Table.get?_erase_of_ne _ hs]

/-- Of a number there is one delivery at most, and there is one if the packet is in the log and the
entries name it. -/
theorem settleAll_filter :
    (log.settleAll epoch entries).2.filter (·.sequence = s) =
      ((log.packets.get? s).bind fun packet =>
        (entries.find? (·.1 = s)).map fun entry => packet.told epoch s entry.2).toList := by
  induction entries generalizing log with
  | nil => cases log.packets.get? s <;> rfl
  | cons entry rest ih =>
    obtain ⟨sequence, arrival⟩ := entry
    rw [settleAll]
    cases hpacket : log.packets.get? sequence with
    | none =>
      simp only [settle_of_none log epoch hpacket, Option.toList_none, List.nil_append, ih]
      by_cases hs : sequence = s
      · simp [← hs, hpacket]
      · simp [hs]
    | some packet =>
      simp only [settle_of_some log epoch hpacket, Option.toList_some, List.singleton_append,
        List.filter_cons, ih]
      by_cases hs : sequence = s
      · simp [← hs, hpacket, SentPacket.told]
      · simp [hs, Table.get?_erase_of_ne _ (Ne.symm hs), SentPacket.told]

/-- Deliveries come in the order of the entries, with what these say of the arrival. -/
theorem settleAll_sublist :
    ((log.settleAll epoch entries).2.map fun d => (d.sequence, d.arrival)).Sublist entries := by
  induction entries generalizing log with
  | nil => exact .slnil
  | cons entry rest ih =>
    obtain ⟨sequence, arrival⟩ := entry
    rw [settleAll]
    cases hpacket : log.packets.get? sequence with
    | none =>
      simp only [settle_of_none log epoch hpacket, Option.toList_none, List.nil_append]
      exact (ih log).cons _
    | some packet =>
      simp only [settle_of_some log epoch hpacket, Option.toList_some, List.singleton_append,
        List.map_cons]
      exact (ih _).cons_cons _

end Settling

theorem resolve_get? (report : Report) (epoch : Time) :
    (log.resolve report epoch).1.packets.get? s =
      if report.Covers s then none else log.packets.get? s :=
  log.settleAll_get? epoch report.arrivals

/-- What a report settles was in the log, and the report tells of it. -/
theorem mem_resolve {report : Report} {epoch : Time} {d : Delivery}
    (hd : d ∈ (log.resolve report epoch).2) :
    report.Covers d.sequence ∧ ∃ packet, log.packets.get? d.sequence = some packet ∧
      d = packet.told epoch d.sequence d.arrival := by
  have hfilter : d ∈ (log.resolve report epoch).2.filter (·.sequence = d.sequence) :=
    List.mem_filter.mpr ⟨hd, by simp⟩
  rw [resolve, settleAll_filter] at hfilter
  simp only [Option.mem_toList, Option.bind_eq_some_iff, Option.map_eq_some_iff] at hfilter
  obtain ⟨packet, hpacket, entry, hentry, heq⟩ := hfilter
  have hsequence : entry.1 = d.sequence := by simpa using List.find?_some hentry
  refine ⟨List.mem_map.mpr ⟨entry, List.mem_of_find?_eq_some hentry, hsequence⟩,
    packet, hpacket, ?_⟩
  have harrival : d.arrival = entry.2 := by rw [← heq, SentPacket.told]
  rw [harrival, heq]

/-- No number is settled twice by one report. -/
theorem resolve_nodup (report : Report) (epoch : Time) :
    ((log.resolve report epoch).2.map (·.sequence)).Nodup := by
  refine List.nodup_iff_count_le_one.mpr fun s => ?_
  have hcount : ((log.resolve report epoch).2.map (·.sequence)).count s =
      ((log.resolve report epoch).2.filter (·.sequence = s)).length := by
    rw [List.count, List.countP_map, List.countP_eq_length_filter]
    rfl
  rw [hcount, resolve, settleAll_filter]
  exact Option.length_toList_le

/-- A report leaves nothing for the same report to settle. -/
theorem resolve_again (report : Report) (epoch again : Time) :
    ((log.resolve report epoch).1.resolve report again).2 = [] := by
  refine List.eq_nil_iff_forall_not_mem.mpr fun d hd => ?_
  obtain ⟨hcovers, packet, hpacket, -⟩ := mem_resolve hd
  rw [resolve_get?, if_pos hcovers] at hpacket
  cases hpacket

section Recording

variable (log) (sequence : UInt32) (now : Time) (size : Nat)

/-- The queue with a new packet in it, before the oldest entries fall out. -/
def queue : List UInt32 :=
  if log.packets.contains sequence then log.order else log.order ++ [sequence]

/-- How many entries are too many. -/
def excess : Nat := (log.queue sequence).length - log.capacity

theorem foldl_erase_get? (gone : List UInt32) (t : Table UInt32 SentPacket) :
    (gone.foldl .erase t).get? s = if s ∈ gone then none else t.get? s := by
  induction gone generalizing t with
  | nil => rfl
  | cons first rest ih =>
    rw [List.foldl_cons, ih]
    by_cases hs : s = first
    · simp [hs]
    · simp [hs, Table.get?_erase_of_ne]

theorem record_get? :
    (log.record sequence now size).packets.get? s =
      if s ∈ (log.queue sequence).take (log.excess sequence) then none
      else if s = sequence then some ⟨now, size⟩ else log.packets.get? s := by
  refine (foldl_erase_get? _ _).trans ?_
  congr 1
  by_cases hs : s = sequence
  · simp [hs]
  · simp [hs, Table.get?_insert_of_ne]

theorem record_order :
    (log.record sequence now size).order = (log.queue sequence).drop (log.excess sequence) := rfl

end Recording

/-- Every packet has its entry in the queue, and the queue is no longer than the log has room. -/
structure Sound (log : SendLog) : Prop where
  queued : ∀ s, log.packets.contains s → s ∈ log.order
  bounded : log.order.length ≤ log.capacity

theorem sound_empty (capacity : Nat) : (empty capacity).Sound := ⟨by simp [empty], Nat.zero_le _⟩

theorem mem_queue {sequence : UInt32}
    (hs : s ∈ log.order ∨ s = sequence ∧ log.packets.contains s = false) :
    s ∈ log.queue sequence := by
  unfold queue
  obtain hold | ⟨rfl, hnew⟩ := hs
  · split
    · exact hold
    · exact List.mem_append_left _ hold
  · simp [hnew]

/-- A number that is noted or has a packet has an entry, or gets one now. -/
theorem Sound.queued_or_new {sequence : UInt32} (hlog : log.Sound)
    (h : s = sequence ∨ log.packets.contains s) :
    s ∈ log.order ∨ s = sequence ∧ log.packets.contains s = false := by
  cases hs : log.packets.contains s with
  | true => exact .inl (hlog.queued s hs)
  | false => exact .inr ⟨h.resolve_right (by simp [hs]), rfl⟩

theorem Sound.record (hlog : log.Sound) (sequence : UInt32) (now : Time) (size : Nat) :
    (log.record sequence now size).Sound := by
  refine ⟨fun s hs => ?_, ?_⟩
  · obtain ⟨packet, hpacket⟩ := Table.contains_iff.mp hs
    rw [record_get?] at hpacket
    split at hpacket
    · cases hpacket
    · rename_i hkept
      have hqueue : s ∈ log.queue sequence := by
        refine mem_queue (hlog.queued_or_new ?_)
        split at hpacket
        · exact .inl ‹_›
        · exact .inr (Table.contains_of_get? hpacket)
      rw [← List.take_append_drop (log.excess sequence) (log.queue sequence)] at hqueue
      exact (List.mem_append.mp hqueue).resolve_left hkept
  · rw [record_order, List.length_drop]
    show (log.queue sequence).length - ((log.queue sequence).length - log.capacity) ≤ log.capacity
    omega

theorem Sound.resolve (hlog : log.Sound) (report : Report) (epoch : Time) :
    (log.resolve report epoch).1.Sound := by
  obtain ⟨horder, hcapacity⟩ := log.settleAll_order epoch report.arrivals
  refine ⟨fun s hs => ?_, ?_⟩
  · obtain ⟨packet, hpacket⟩ := Table.contains_iff.mp hs
    rw [resolve_get?] at hpacket
    split at hpacket
    · cases hpacket
    · rw [SendLog.resolve, horder]
      exact hlog.queued s (Table.contains_of_get? hpacket)
  · rw [SendLog.resolve, horder, hcapacity]
    exact hlog.bounded

theorem Sound.size_le (hlog : log.Sound) : log.size ≤ log.capacity := by
  have hkeys : log.packets.keys ⊆ log.order := fun s hs => hlog.queued s (Table.mem_keys_iff.mp hs)
  have hle := (List.subperm_of_subset log.packets.keys_nodup hkeys).length_le
  rw [Table.length_keys] at hle
  exact Nat.le_trans hle hlog.bounded

/-- What is done with a log: a packet is noted, or a report is read. -/
inductive Act
  | sent (sequence : UInt32) (now : Time) (size : Nat)
  | report (report : Report) (epoch : Time)

/-- The act notes a packet of that number, or settles it. -/
def Act.Touches (s : UInt32) : Act → Prop
  | sent sequence _ _ => s = sequence
  | report told _ => told.Covers s

instance (s : UInt32) : (act : Act) → Decidable (act.Touches s)
  | .sent sequence _ _ => inferInstanceAs (Decidable (s = sequence))
  | .report told _ => inferInstanceAs (Decidable (told.Covers s))

def step (log : SendLog) : Act → SendLog
  | .sent sequence now size => log.record sequence now size
  | .report report epoch => (log.resolve report epoch).1

def run (log : SendLog) : List Act → SendLog
  | [] => log
  | act :: acts => (log.step act).run acts

theorem run_append (log : SendLog) (acts acts' : List Act) :
    log.run (acts ++ acts') = (log.run acts).run acts' := by
  induction acts generalizing log with
  | nil => rfl
  | cons act acts ih => exact ih _

theorem Sound.step (hlog : log.Sound) (act : Act) : (log.step act).Sound := by
  cases act with
  | sent sequence now size => exact hlog.record sequence now size
  | report report epoch => exact hlog.resolve report epoch

theorem Sound.run (hlog : log.Sound) (acts : List Act) : (log.run acts).Sound := by
  induction acts generalizing log with
  | nil => exact hlog
  | cons act acts ih => exact ih (hlog.step act)

theorem step_capacity (log : SendLog) (act : Act) : (log.step act).capacity = log.capacity := by
  cases act with
  | sent sequence now size => rfl
  | report report epoch => exact (log.settleAll_order epoch report.arrivals).2

theorem run_capacity (log : SendLog) (acts : List Act) : (log.run acts).capacity = log.capacity := by
  induction acts generalizing log with
  | nil => rfl
  | cons act acts ih => exact (ih _).trans (log.step_capacity act)

/-- A packet in the log after an act was noted by it, or was in the log before and is not touched. -/
theorem step_get? {act : Act} {packet : SentPacket}
    (h : (log.step act).packets.get? s = some packet) :
    act = .sent s packet.sent packet.size ∨
      ¬act.Touches s ∧ log.packets.get? s = some packet := by
  cases act with
  | sent sequence now size =>
    rw [step, record_get?] at h
    split at h
    · cases h
    · split at h
      · rename_i hs
        obtain rfl := Option.some.inj h
        exact .inl (by rw [hs])
      · rename_i hs
        exact .inr ⟨hs, h⟩
  | report report epoch =>
    rw [step, resolve_get?] at h
    split at h
    · cases h
    · rename_i hs
      exact .inr ⟨hs, h⟩

/-- A packet in the log was noted in the run, and not touched since. -/
theorem exists_sent {capacity : Nat} {acts : List Act} {packet : SentPacket}
    (h : ((empty capacity).run acts).packets.get? s = some packet) :
    ∃ before after, acts = before ++ .sent s packet.sent packet.size :: after ∧
      ∀ act ∈ after, ¬act.Touches s := by
  induction acts using List.reverseRecOn with
  | nil => cases h
  | append_singleton acts act ih =>
    rw [run_append] at h
    obtain rfl | ⟨hquiet, h⟩ := step_get? h
    · exact ⟨acts, [], rfl, by simp⟩
    · obtain ⟨before, after, rfl, hafter⟩ := ih h
      refine ⟨before, after ++ [act], by simp, fun later hlater => ?_⟩
      obtain hlater | hlater := List.mem_append.mp hlater
      · exact hafter later hlater
      · exact List.mem_singleton.mp hlater ▸ hquiet

end SendLog

end MediaRelay
