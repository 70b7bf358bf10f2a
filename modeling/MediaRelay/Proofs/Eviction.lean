import MediaRelay.Proofs.SendLog

/-!
How long a packet stays in a send log that no report settles it from. The queue drops entries by
number, and a number that was noted before may have an older entry in it: the packet goes when the
first entry of its number goes (`run_get?_latest`). So a report finds the packet if, from that entry
on, no more entries were made than the log has room for (`run_resolves_latest_iff`).
-/

namespace MediaRelay.SendLog

variable {log : SendLog} {s : UInt32}

/-- The entries in the queue from the first one of a number on. -/
def waiting (log : SendLog) (s : UInt32) : Nat := log.order.length - log.order.idxOf s

/-- A number that has a packet gets no new entry. -/
def fresh (log : SendLog) (sequence : UInt32) : Nat :=
  if log.packets.contains sequence then 0 else 1

/-- The entries that acts make in the queue. -/
def entered (log : SendLog) : List Act → Nat
  | [] => 0
  | .sent sequence now size :: acts =>
    log.fresh sequence + (log.record sequence now size).entered acts
  | .report report epoch :: acts => (log.resolve report epoch).1.entered acts

def Act.isSent : Act → Bool
  | sent _ _ _ => true
  | report _ _ => false

theorem entered_le (log : SendLog) (acts : List Act) : log.entered acts ≤ acts.countP Act.isSent := by
  induction acts generalizing log with
  | nil => exact Nat.le_refl _
  | cons act acts ih =>
    cases act with
    | sent sequence now size =>
      have hrest := ih (log.record sequence now size)
      have hfresh : log.fresh sequence ≤ 1 := by
        unfold fresh
        split <;> decide
      rw [entered, List.countP_cons_of_pos rfl]
      omega
    | report report epoch =>
      rw [entered, List.countP_cons_of_neg (by simp [Act.isSent])]
      exact ih _

/-- What has an entry was noted. -/
theorem sent_of_mem_order {capacity : Nat} {acts : List Act}
    (h : s ∈ ((empty capacity).run acts).order) : ∃ now size, .sent s now size ∈ acts := by
  induction acts using List.reverseRecOn with
  | nil => cases h
  | append_singleton acts act ih =>
    rw [run_append] at h
    have hold (hs : s ∈ ((empty capacity).run acts).order) :
        ∃ now size, .sent s now size ∈ acts ++ [act] := by
      obtain ⟨now, size, hsent⟩ := ih hs
      exact ⟨now, size, List.mem_append_left _ hsent⟩
    cases act with
    | sent sequence now size =>
      have hs := List.mem_of_mem_drop (show s ∈ (queue _ _).drop _ from h)
      unfold queue at hs
      split at hs
      · exact hold hs
      · obtain hs | hs := List.mem_append.mp hs
        · exact hold hs
        · obtain rfl := List.mem_singleton.mp hs
          exact ⟨now, size, by simp⟩
    | report report epoch =>
      exact hold ((settleAll_order _ epoch report.arrivals).1 ▸ h)

section Record

variable {sequence : UInt32}

/-- A new entry comes behind all others. -/
theorem waiting_queue (hs : s ∈ log.order ∨ s = sequence ∧ log.packets.contains s = false) :
    (log.queue sequence).length - (log.queue sequence).idxOf s =
      log.waiting s + log.fresh sequence := by
  unfold queue waiting fresh
  split
  · rfl
  · by_cases hold : s ∈ log.order
    · have hlt := List.idxOf_lt_length_iff.mpr hold
      rw [List.idxOf_append_of_mem hold, List.length_append, List.length_singleton]
      omega
    · obtain rfl := (hs.resolve_left hold).1
      rw [List.idxOf_append_of_notMem hold, List.idxOf_eq_length hold, List.length_append]
      simp

theorem mem_take_excess_iff (hs : s ∈ log.queue sequence) :
    s ∈ (log.queue sequence).take (log.excess sequence) ↔
      log.capacity < (log.queue sequence).length - (log.queue sequence).idxOf s := by
  have hlt := List.idxOf_lt_length_iff.mpr hs
  rw [List.mem_take_iff_idxOf_lt hs, excess]
  omega

/-- What falls out of the queue changes nothing behind it. -/
theorem waiting_record (hkept : s ∉ (log.queue sequence).take (log.excess sequence)) (now : Time)
    (size : Nat) :
    (log.record sequence now size).waiting s =
      (log.queue sequence).length - (log.queue sequence).idxOf s := by
  have hidx : ((log.queue sequence).take (log.excess sequence) ++
      (log.queue sequence).drop (log.excess sequence)).idxOf s = _ :=
    List.idxOf_append_of_notMem hkept
  rw [List.take_append_drop, List.length_take] at hidx
  rw [waiting, record_order, List.length_drop, hidx]
  omega

/-- A new entry leaves what there is room for, from the first entry of its number on. -/
theorem record_of_room (hs : s ∈ log.order ∨ s = sequence ∧ log.packets.contains s = false)
    (hroom : log.waiting s + log.fresh sequence ≤ log.capacity) (now : Time) (size : Nat) :
    (log.record sequence now size).waiting s = log.waiting s + log.fresh sequence ∧
      (log.record sequence now size).packets.get? s =
        if s = sequence then some ⟨now, size⟩ else log.packets.get? s := by
  have hkept : s ∉ (log.queue sequence).take (log.excess sequence) := by
    rw [mem_take_excess_iff (mem_queue hs), waiting_queue hs]
    omega
  exact ⟨(waiting_record hkept now size).trans (waiting_queue hs),
    (record_get? log sequence now size).trans (if_neg hkept)⟩

theorem record_of_no_room (hs : s ∈ log.order ∨ s = sequence ∧ log.packets.contains s = false)
    (hfull : log.capacity < log.waiting s + log.fresh sequence) (now : Time) (size : Nat) :
    (log.record sequence now size).packets.get? s = none := by
  rw [record_get?, if_pos]
  rwa [mem_take_excess_iff (mem_queue hs), waiting_queue hs]

end Record

/-- What is not in the log is not there again before it is noted. -/
theorem run_get?_none {acts : List Act} (h : log.packets.get? s = none)
    (hquiet : ∀ act ∈ acts, ¬act.Touches s) : (log.run acts).packets.get? s = none := by
  induction acts generalizing log with
  | nil => exact h
  | cons act acts ih =>
    obtain ⟨hact, hrest⟩ := List.forall_mem_cons.mp hquiet
    refine ih (Option.eq_none_iff_forall_ne_some.mpr fun packet hpacket => ?_) hrest
    obtain rfl | ⟨-, hold⟩ := step_get? hpacket
    · exact hact rfl
    · rw [h] at hold
      cases hold

/-- If what an entry leaves stays for as long as there is room, then so does what was there before. -/
theorem run_sent_get? {sequence : UInt32} {now : Time} {size : Nat} {packet : SentPacket}
    {acts : List Act} (hs : s ∈ log.order ∨ s = sequence ∧ log.packets.contains s = false)
    (hpacket : (if s = sequence then some ⟨now, size⟩ else log.packets.get? s) = some packet)
    (hquiet : ∀ act ∈ acts, ¬act.Touches s)
    (hlasts : (log.record sequence now size).packets.get? s = some packet →
      ((log.record sequence now size).run acts).packets.get? s =
        if (log.record sequence now size).waiting s + (log.record sequence now size).entered acts ≤
            log.capacity
        then some packet else none) :
    (log.run (.sent sequence now size :: acts)).packets.get? s =
      if log.waiting s + log.entered (.sent sequence now size :: acts) ≤ log.capacity
      then some packet else none := by
  rw [entered, ← Nat.add_assoc]
  by_cases hroom : log.waiting s + log.fresh sequence ≤ log.capacity
  · obtain ⟨hwaiting, hkept⟩ := record_of_room hs hroom now size
    rw [← hwaiting]
    exact hlasts (hkept.trans hpacket)
  · have hgone := record_of_no_room hs (Nat.lt_of_not_le hroom) now size
    rw [if_neg (by omega)]
    exact (run_get?_none hgone hquiet :)

/-- A packet that is not touched stays until the first entry of its number is beyond the room. -/
theorem run_get?_untouched {acts : List Act} {packet : SentPacket} (hlog : log.Sound)
    (hquiet : ∀ act ∈ acts, ¬act.Touches s) (h : log.packets.get? s = some packet) :
    (log.run acts).packets.get? s =
      if log.waiting s + log.entered acts ≤ log.capacity then some packet else none := by
  induction acts generalizing log with
  | nil =>
    have hroom : log.waiting s ≤ log.capacity := Nat.le_trans (Nat.sub_le _ _) hlog.bounded
    exact h.trans (if_pos hroom).symm
  | cons act acts ih =>
    obtain ⟨hact, hrest⟩ := List.forall_mem_cons.mp hquiet
    cases act with
    | sent sequence now size =>
      have hne : s ≠ sequence := hact
      have hqueued := hlog.queued s (Table.contains_of_get? h)
      refine run_sent_get? (.inl hqueued) (by rw [if_neg hne, h]) hrest fun hkept => ?_
      exact ih (hlog.record sequence now size) hrest hkept
    | report report epoch =>
      have huncovered : ¬report.Covers s := hact
      obtain ⟨horder, hcapacity⟩ := log.settleAll_order epoch report.arrivals
      have hkept : (log.resolve report epoch).1.packets.get? s = some packet := by
        rw [resolve_get?, if_neg huncovered, h]
      have hlasts := ih (hlog.resolve report epoch) hrest hkept
      rw [waiting, resolve, horder, hcapacity] at hlasts
      exact hlasts

/-- The same of a packet from when it is noted on. -/
theorem run_get?_latest {after : List Act} (hlog : log.Sound)
    (hquiet : ∀ act ∈ after, ¬act.Touches s) (now : Time) (size : Nat) :
    (log.run (.sent s now size :: after)).packets.get? s =
      if log.waiting s + log.entered (.sent s now size :: after) ≤ log.capacity
      then some ⟨now, size⟩ else none := by
  exact run_sent_get? (hlog.queued_or_new (.inl rfl)) (if_pos rfl) hquiet
    (run_get?_untouched (hlog.record s now size) hquiet)

/-- What a report first says of a number is what counts. -/
theorem exists_arrival {report : Report} (hcovers : report.Covers s) :
    ∃ arrival, report.arrivals.find? (·.1 = s) = some (s, arrival) := by
  obtain ⟨entry, hentry, hnumber⟩ := List.mem_map.mp hcovers
  have hnamed : ∃ entry ∈ report.arrivals, decide (entry.1 = s) :=
    ⟨entry, hentry, decide_eq_true hnumber⟩
  obtain ⟨⟨number, arrival⟩, hfind⟩ := Option.isSome_iff_exists.mp (List.find?_isSome.mpr hnamed)
  obtain rfl : number = s := by simpa using List.find?_some hfind
  exact ⟨arrival, hfind⟩

/-- A number without an entry is not lost before as many packets were noted as there is room for. -/
theorem room_of_notMem_order {capacity : Nat} {after : List Act} (hnew : s ∉ log.order)
    (hrecent : after.countP Act.isSent < capacity) (now : Time) (size : Nat) :
    log.waiting s + log.entered (.sent s now size :: after) ≤ capacity := by
  have hentered := log.entered_le (.sent s now size :: after)
  rw [List.countP_cons_of_pos rfl] at hentered
  rw [waiting, List.idxOf_eq_length hnew]
  omega

/-- The next report about a packet settles it, with the time and the size it was last noted with, if
and only if the log has room for the entries from the first one on that the number had when it was
last noted. That is so of one of the last packets if the number had no entry then. -/
theorem run_resolves_latest_iff {capacity : Nat} {before after : List Act} {report : Report}
    (hquiet : ∀ act ∈ after, ¬act.Touches s) (hcovers : report.Covers s) (now : Time) (size : Nat)
    (epoch : Time) :
    let log := (empty capacity).run before
    let settled := ((log.run (.sent s now size :: after)).resolve report epoch).2.filter
      (·.sequence = s)
    let room := log.waiting s + log.entered (.sent s now size :: after) ≤ capacity
    (room → ∃ arrival, (s, arrival) ∈ report.arrivals ∧
      settled = [⟨s, Serial.signed64 (Time.since now epoch), arrival, size⟩]) ∧
    (¬room → settled = []) ∧
    (s ∉ log.order → after.countP Act.isSent < capacity → room) ∧
    ((∀ now size, .sent s now size ∉ before) → s ∉ log.order) := by
  intro log settled room
  have hlog : log.Sound := (sound_empty capacity).run before
  have hcapacity : log.capacity = capacity := run_capacity _ before
  have hget := run_get?_latest hlog hquiet now size
  rw [hcapacity] at hget
  have hsettled : settled = _ := settleAll_filter _ epoch report.arrivals
  refine ⟨fun hroom => ?_, fun hfull => ?_, fun hnew hrecent =>
    room_of_notMem_order hnew hrecent now size, fun hnever hs => ?_⟩
  · obtain ⟨arrival, hfind⟩ := exists_arrival hcovers
    refine ⟨arrival, List.mem_of_find?_eq_some hfind, ?_⟩
    rw [hget, if_pos hroom, Option.bind_some, hfind] at hsettled
    exact hsettled
  · rw [hget, if_neg hfull] at hsettled
    exact hsettled
  · obtain ⟨now', size', hsent⟩ := sent_of_mem_order hs
    exact hnever now' size' hsent

theorem run_resolves_latest_two_packets :
    let report : Report := ⟨1, 0, [.received 0]⟩
    let after : List Act := [.sent 2 0 300]
    let log := (empty 2).run []
    (∀ act ∈ after, ¬act.Touches 1) ∧ report.Covers 1 ∧
      log.waiting 1 + log.entered (.sent 1 0 100 :: after) ≤ 2 ∧
      ((log.run (.sent 1 0 100 :: after)).resolve report 0).2.filter (·.sequence = 1) =
        [⟨1, 0, some 0, 100⟩] := by
  intro report after log
  have hquiet : ∀ act ∈ after, ¬act.Touches 1 := by decide
  have hcovers : report.Covers 1 := by decide
  have hroom : log.waiting 1 + log.entered (.sent 1 0 100 :: after) ≤ 2 := by decide
  obtain ⟨arrival, harrival, hsettled⟩ :=
    (run_resolves_latest_iff hquiet hcovers 0 100 0).1 hroom
  have harrivals : report.arrivals = [(1, some 0)] := by decide
  obtain rfl : arrival = some 0 := by simpa [harrivals] using harrival
  exact ⟨hquiet, hcovers, hroom, hsettled⟩

/-- One of the last two packets is not in a log with room for two: a report has settled the first
packet of its number, and left the entry in the queue. -/
theorem recent_packet_dropped :
    let report : Report := ⟨1, 0, [.received 0]⟩
    let before : List Act := [.sent 1 0 100, .report report 0]
    let after : List Act := [.sent 2 0 300]
    (∀ act ∈ after, ¬act.Touches 1) ∧ report.Covers 1 ∧ after.countP Act.isSent < 2 ∧
      (((empty 2).run (before ++ .sent 1 0 200 :: after)).resolve report 0).2 = [] := by
  decide +kernel

end MediaRelay.SendLog
