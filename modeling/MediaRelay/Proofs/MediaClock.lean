import Mathlib.Algebra.Group.Int.Defs
import Mathlib.Data.List.Induction
import MediaRelay.Media.Codec
import MediaRelay.Proofs.Tiling

/-!
The sender's clock as the log of arrivals reads it. A timestamp shows the lowest 32 bits of a media
time, and from packet to packet media time goes to the nearest that shows the next timestamp
(`MediaTime`). It is scaled in a signed word before the clock rate divides it, and where the product
does not fit the word there is no going on. So acts come through exactly if all media times on the
way fit (`completes_iff_fits`), and then the time of sending is the media time in microseconds. The
product of each of the first 4293 packets fits; the next one's need not (`fast_clock_stops`).
-/

namespace MediaRelay.ArrivalLog

/-- The timestamp that the log takes from an act. A packet that comes too late has none for it. -/
def timestamp? (log : ArrivalLog) : Act → Option UInt32
  | .packet p => if log.IsPast (log.numberOf p.sequence) then none else some p.timestamp
  | .report => none

/-- The timestamps that the log takes from acts, the newest first. -/
def timestamps (log : ArrivalLog) : List Act → List UInt32
  | [] => []
  | act :: acts => (log.step act).timestamps acts ++ (log.timestamp? act).toList

/-- What becomes of a log in machine words, if the media time fits. -/
def step? (log : ArrivalLog) : Act → Option ArrivalLog
  | .packet p => log.record? p.sequence p.timestamp p.clockRate p.size p.now
  | .report => some log.takeReport.1

def run? (log : ArrivalLog) (acts : List Act) : Option ArrivalLog := acts.foldlM step? log

/-- The media time of the newest of some timestamps. -/
inductive MediaTime : List UInt32 → Int → Prop
  | first (t : UInt32) : MediaTime [t] t.toNat
  | next {t : UInt32} {ts : List UInt32} {last media : Int} (before : MediaTime ts last)
      (shown : media % 2 ^ 32 = t.toNat) (ahead : media < last + 2 ^ 31)
      (behind : last ≤ media + 2 ^ 31) : MediaTime (t :: ts) media

namespace MediaTime

variable {ts : List UInt32} {media media' : Int}

theorem unique (h : MediaTime ts media) (h' : MediaTime ts media') : media = media' := by
  induction h generalizing media' with
  | first t =>
    cases h' with
    | first => rfl
    | next before => cases before
  | next before shown ahead behind ih =>
    cases h' with
    | first => cases before
    | next before' shown' ahead' behind' =>
      have hlast := ih before'
      omega

/-- Media time is less than half a turn from one packet to the next. -/
theorem bounds (h : MediaTime ts media) :
    2 ^ 31 ≤ media + ts.length * 2 ^ 31 ∧ media ≤ 2 ^ 31 + ts.length * (2 ^ 31 - 1) := by
  induction h with
  | first t =>
    have ht := t.toNat_lt
    rw [List.length_singleton]
    omega
  | next before shown ahead behind ih =>
    rw [List.length_cons]
    omega

theorem fits (h : MediaTime ts media) (hlength : ts.length ≤ 4293) : Fits media := by
  have hbounds := h.bounds
  -- The last of 4293 packets is at most 4292 times half a turn away from the first timestamp.
  constructor <;> omega

end MediaTime

variable {log : ArrivalLog} {ts : List UInt32}

/-- The log keeps the newest of the timestamps with its media time. -/
structure Hears (log : ArrivalLog) (ts : List UInt32) : Prop where
  grounded : log.Grounded
  silent : log.lastTimestamp = none → ts = []
  told : ∀ low media, log.lastTimestamp = some (low, media) →
    MediaTime ts media ∧ media % 2 ^ 32 = low.toNat

theorem hears_start (epoch : Time) : Hears (empty epoch) [] :=
  ⟨grounded_empty epoch, fun _ => rfl, nofun⟩

/-- The number nearest to the last media time shows the timestamp. -/
theorem Hears.mediaTime (h : Hears log ts) (t : UInt32) :
    MediaTime (t :: ts) (mediaTime log.lastTimestamp t) ∧
      mediaTime log.lastTimestamp t % 2 ^ 32 = t.toNat := by
  have ht := t.toNat_lt
  cases hlast : log.lastTimestamp with
  | none =>
    rw [h.silent hlast]
    exact ⟨.first t, by rw [ArrivalLog.mediaTime]; omega⟩
  | some last =>
    obtain ⟨low, media⟩ := last
    obtain ⟨hbefore, hlow⟩ := h.told low media hlast
    have hturn : (Serial.turn 32 : Int) = 2 ^ 32 := rfl
    have hge := Int.le_bmod (x := t.toNat - low.toNat) (Serial.turn_pos 32)
    have hlt := Int.bmod_lt (x := t.toNat - low.toNat) (Serial.turn_pos 32)
    obtain ⟨turns, hturns⟩ : (Serial.turn 32 : Int) ∣
        Int.bmod (t.toNat - low.toNat) (Serial.turn 32) - (t.toNat - low.toNat) :=
      Int.dvd_bmod_sub_self
    have hshown : (ArrivalLog.mediaTime (some (low, media)) t) % 2 ^ 32 = t.toNat := by
      rw [hturn] at hturns
      rw [ArrivalLog.mediaTime]
      omega
    refine ⟨.next hbefore hshown ?_ ?_, hshown⟩ <;> rw [ArrivalLog.mediaTime] <;> omega

theorem Hears.step (h : Hears log ts) (act : Act) :
    Hears (log.step act) ((log.timestamp? act).toList ++ ts) := by
  cases act with
  | packet p =>
    have hgrounded : (log.step (.packet p)).Grounded := h.grounded.record _ _ _ _ _
    rw [timestamp?]
    split
    · rename_i hpast
      rwa [ArrivalLog.step, h.grounded.record_of_isPast _ _ _ _ _ hpast]
    · rename_i htimely
      refine ⟨hgrounded, ?_, ?_⟩
      · rw [ArrivalLog.step, record_of_not_isPast _ _ _ _ _ htimely]
        intro hsilent
        cases hsilent
      · rw [ArrivalLog.step, record_of_not_isPast _ _ _ _ _ htimely]
        rintro _ _ ⟨⟩
        exact h.mediaTime p.timestamp
  | report =>
    have hgrounded : (log.step .report).Grounded := h.grounded.takeReport
    have hlast : (log.step .report).lastTimestamp = log.lastTimestamp :=
      (takeReport_fields log).2.2
    exact ⟨hgrounded, hlast ▸ h.silent, hlast ▸ h.told⟩

theorem Hears.run (h : Hears log ts) (acts : List Act) :
    Hears (log.run acts) (log.timestamps acts ++ ts) := by
  induction acts generalizing log ts with
  | nil => exact h
  | cons act acts ih =>
    rw [timestamps, List.append_assoc]
    exact ih (h.step act)

theorem hears_run (epoch : Time) (acts : List Act) :
    Hears ((empty epoch).run acts) ((empty epoch).timestamps acts) := by
  have h := (hears_start epoch).run acts
  rwa [List.append_nil] at h

theorem Hears.fits (h : Hears log ts) (hlength : ts.length ≤ 4293) : log.fits := by
  rw [ArrivalLog.fits, Option.all_eq_true]
  rintro ⟨low, media⟩ hlast
  exact decide_eq_true ((h.told low media hlast).1.fits hlength)

theorem timestamps_concat (log : ArrivalLog) (acts : List Act) (act : Act) :
    log.timestamps (acts ++ [act]) =
      ((log.run acts).timestamp? act).toList ++ log.timestamps acts := by
  induction acts generalizing log with
  | nil => exact (List.append_nil _).symm
  | cons first acts ih =>
    rw [List.cons_append, timestamps, ih, timestamps, List.append_assoc]
    rfl

/-- A step comes through exactly if the media time that it notes fits, and does then what it does
without a limit. -/
theorem step?_eq_some_iff {log' : ArrivalLog} {act : Act} :
    log.step? act = some log' ↔ log' = log.step act ∧
      ∀ t, log.timestamp? act = some t → Fits (mediaTime log.lastTimestamp t) := by
  cases act with
  | report => simp [step?, step, timestamp?, eq_comm]
  | packet p =>
    rw [step?, record?_eq_some_iff, and_comm, step, eq_comm, timestamp?]
    by_cases hpast : log.IsPast (log.numberOf p.sequence) <;> simp [hpast]

theorem Hears.step?_isSome_iff (h : Hears log ts) (act : Act) :
    (log.step? act).isSome ↔
      ∀ t media, log.timestamp? act = some t → MediaTime (t :: ts) media → Fits media := by
  rw [Option.isSome_iff_exists]
  constructor
  · rintro ⟨log', hstep⟩ t media ht hmedia
    rw [hmedia.unique (h.mediaTime t).1]
    exact (step?_eq_some_iff.mp hstep).2 t ht
  · intro hfits
    exact ⟨_, step?_eq_some_iff.mpr ⟨rfl, fun t ht => hfits t _ ht (h.mediaTime t).1⟩⟩

theorem run?_concat (log : ArrivalLog) (acts : List Act) (act : Act) :
    log.run? (acts ++ [act]) = (log.run? acts).bind (·.step? act) := by
  rw [run?, List.foldlM_append]
  simp [run?]

/-- What comes through is what becomes of the log without a limit. -/
theorem eq_run_of_run? {acts : List Act} {log' : ArrivalLog} (h : log.run? acts = some log') :
    log' = log.run acts := by
  induction acts using List.reverseRecOn generalizing log' with
  | nil => exact (Option.some.inj h).symm
  | append_singleton acts act ih =>
    rw [run?_concat] at h
    obtain ⟨before, hbefore, hstep⟩ := Option.bind_eq_some_iff.mp h
    rw [(step?_eq_some_iff.mp hstep).1, ih hbefore, run, run, List.foldl_concat]

theorem run?_concat_isSome_iff (log : ArrivalLog) (acts : List Act) (act : Act) :
    (log.run? (acts ++ [act])).isSome ↔
      (log.run? acts).isSome ∧ ((log.run acts).step? act).isSome := by
  rw [run?_concat]
  cases hrun : log.run? acts with
  | none => simp
  | some log' => simp [eq_run_of_run? hrun]

theorem run?_isSome_iff (epoch : Time) (acts : List Act) :
    ((empty epoch).run? acts).isSome ↔
      ∀ ts media, ts <:+ (empty epoch).timestamps acts → MediaTime ts media → Fits media := by
  induction acts using List.reverseRecOn with
  | nil =>
    refine iff_of_true rfl fun ts media hts hmedia => ?_
    obtain rfl := List.suffix_nil.mp hts
    cases hmedia
  | append_singleton acts act ih =>
    rw [run?_concat_isSome_iff, ih, (hears_run epoch acts).step?_isSome_iff, timestamps_concat]
    cases ht : ((empty epoch).run acts).timestamp? act with
    | none => simp
    | some t =>
      -- The last media time is that of the whole list, the ones before are those of its suffixes.
      simp only [Option.toList_some, List.singleton_append, List.suffix_cons_iff]
      constructor
      · rintro ⟨hbefore, hlast⟩ ts media (rfl | hts) hmedia
        · exact hlast t media rfl hmedia
        · exact hbefore ts media hts hmedia
      · intro hall
        refine ⟨fun ts media hts => hall ts media (.inr hts), ?_⟩
        rintro _ media ⟨⟩
        exact hall _ media (.inl rfl)

theorem run?_isSome_of_length {epoch : Time} {acts : List Act}
    (hlength : ((empty epoch).timestamps acts).length ≤ 4293) :
    ((empty epoch).run? acts).isSome :=
  (run?_isSome_iff epoch acts).mpr fun _ _ hts hmedia =>
    hmedia.fits (Nat.le_trans hts.length_le hlength)

/-- The acts on a fresh log come through exactly if every media time on the way fits a word once it
is scaled, and so do the first 4293 packets in time. What comes through has the true media time of
each packet: a late packet leaves no trace, and one in time is noted with the microseconds of its
media time, or there is no going on. -/
theorem completes_iff_fits (epoch : Time) (acts : List Act) :
    let heard := (empty epoch).timestamps acts
    (((empty epoch).run? acts).isSome ↔
      ∀ ts media, ts <:+ heard → MediaTime ts media → Fits media) ∧
    (heard.length ≤ 4293 → ((empty epoch).run? acts).isSome) ∧
    ∀ log, (empty epoch).run? acts = some log → ∀ p : Packet,
      (log.IsPast (log.numberOf p.sequence) → log.step? (.packet p) = some log) ∧
      (¬log.IsPast (log.numberOf p.sequence) → ∃ media,
        (∀ media', MediaTime (p.timestamp :: heard) media' ↔ media' = media) ∧
        ((log.step? (.packet p)).isSome ↔ Fits media) ∧
        ∀ log', log.step? (.packet p) = some log' → ∀ n,
          log'.pending.get? n = (log.pending.get? n).or
            (if log.numberOf p.sequence = n then
              some ⟨Time.since p.now epoch, micros media p.clockRate, p.size⟩
            else none)) := by
  intro heard
  refine ⟨run?_isSome_iff epoch acts, run?_isSome_of_length, fun log hlog p => ?_⟩
  have hhears : Hears log heard := eq_run_of_run? hlog ▸ hears_run epoch acts
  have hepoch : log.epoch = epoch := eq_run_of_run? hlog ▸ run_epoch (empty epoch) acts
  constructor
  · intro hpast
    refine step?_eq_some_iff.mpr ⟨?_, fun t ht => ?_⟩
    · exact (hhears.grounded.record_of_isPast _ _ _ _ _ hpast).symm
    · rw [timestamp?, if_pos hpast] at ht
      cases ht
  · intro htimely
    have hmedia := (hhears.mediaTime p.timestamp).1
    refine ⟨mediaTime log.lastTimestamp p.timestamp, fun media' => ⟨fun h => h.unique hmedia, ?_⟩,
      ?_, fun log' hstep => ?_⟩
    · rintro rfl
      exact hmedia
    · rw [hhears.step?_isSome_iff, timestamp?, if_neg htimely]
      constructor
      · intro hfits
        exact hfits _ _ rfl hmedia
      · rintro hfits _ _ ⟨⟩ hmedia'
        rwa [hmedia'.unique hmedia]
    · rw [(step?_eq_some_iff.mp hstep).1, ← hepoch]
      exact record_get? log _ _ _ _ _ htimely

/-- A clock that turns over between two packets. -/
example :
    (((empty 0).run? [.packet ⟨0, 4294967295, Codec.opus.clockRate, 100, 0⟩,
      .packet ⟨1, 0, Codec.opus.clockRate, 100, 0⟩]).map fun log =>
        log.pending.values.map (·.sent)) = some [89478485312, 89478485333] := by
  decide +kernel

/-- Before a report is taken no packet comes too late. -/
theorem run_packets (h : log.nextBase = none) (packets : List Packet) :
    (log.run (packets.map .packet)).nextBase = none ∧
      log.timestamps (packets.map .packet) = (packets.map (·.timestamp)).reverse := by
  induction packets generalizing log with
  | nil => exact ⟨h, rfl⟩
  | cons p packets ih =>
    obtain ⟨hnextBase, htimestamps⟩ := ih ((record_fields log _ _ _ _ _).2.1.trans h)
    refine ⟨hnextBase, ?_⟩
    rw [List.map_cons, timestamps, List.map_cons, List.reverse_cons, timestamp?,
      if_neg (not_isPast_of_none h _)]
    exact congrArg (· ++ [p.timestamp]) htimestamps

section FastClock

/-- The timestamps of a clock that is almost half a turn ahead with each packet. -/
def fastTimestamp (k : Nat) : UInt32 := .ofNat (4294967295 + k * 2147483647)

def fastPacket (sequence : UInt32) (k : Nat) : Packet :=
  ⟨sequence, fastTimestamp k, Codec.vp9.clockRate, 100, 0⟩

def fastStream (k : Nat) : List Act := ((List.range k).map (fastPacket 0)).map .packet

theorem fastStream_timestamps (k : Nat) :
    (empty 0).timestamps (fastStream k) = ((List.range k).map fastTimestamp).reverse := by
  rw [fastStream, (run_packets rfl _).2, List.map_map]
  rfl

theorem fastStream_mediaTime (k : Nat) :
    MediaTime (fastTimestamp k :: (empty 0).timestamps (fastStream k))
      (4294967295 + k * 2147483647) := by
  rw [fastStream_timestamps]
  induction k with
  | zero => exact .first 4294967295
  | succ k ih =>
    rw [List.range_succ, List.map_append, List.reverse_append]
    refine .next ih ?_ (by omega) (by omega)
    rw [fastTimestamp, UInt32.toNat_ofNat']
    omega

theorem fast_clock_stops :
    let p := fastPacket 1 4293
    ((empty 0).run? (fastStream 4293)).isSome ∧
      (empty 0).run? (fastStream 4293 ++ [.packet p]) = none ∧
      MediaTime (p.timestamp :: (empty 0).timestamps (fastStream 4293)) 9223442263866 ∧
      ¬Fits 9223442263866 ∧ micros 9223442263866 p.clockRate = 102482691820733 := by
  intro p
  have hmedia := fastStream_mediaTime 4293
  have hlarge : ¬Fits 9223442263866 := by decide
  have htimely : ¬((empty 0).run (fastStream 4293)).IsPast
      (((empty 0).run (fastStream 4293)).numberOf p.sequence) :=
    not_isPast_of_none (run_packets rfl _).1 _
  refine ⟨run?_isSome_of_length ?_, ?_, hmedia, hlarge, by decide⟩
  · rw [fastStream_timestamps, List.length_reverse, List.length_map, List.length_range]
  · rw [← Option.not_isSome_iff_eq_none, run?_concat_isSome_iff,
      (hears_run 0 (fastStream 4293)).step?_isSome_iff, timestamp?, if_neg htimely]
    rintro ⟨-, hfits⟩
    exact hlarge (hfits _ _ rfl hmedia)

end FastClock

end MediaRelay.ArrivalLog
