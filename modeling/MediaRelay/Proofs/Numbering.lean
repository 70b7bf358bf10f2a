import Mathlib.Order.MinMax
import Mathlib.Order.Monotone.Basic
import MediaRelay.Proofs.FrameMemory
import MediaRelay.Proofs.Tiling

/-!
The numbers behind the low bits that the wire shows. `Serial.extendAll` extends low bits to the
numbers nearest to the highest so far. Frame histories count so, whatever packets they refuse
(`FrameHistory.observeAll_frames`), and so do logs of arrivals, whenever reports are taken
(`ArrivalLog.run_numbers`). If each true number comes within half a turn of the highest before it,
the numbers found are the true ones, all moved by the same whole turns (`numbering_recovered`).
-/

namespace MediaRelay

namespace Serial

variable {width : Nat} {ts : List Int}

/-- The low bits of a number. -/
def low (width : Nat) (t : Int) : Nat := (t % turn width).toNat

/-- Each number is at most half a turn below the highest before it, and less than that above. -/
def Steady (width : Nat) (ts : List Int) : Prop :=
  ∀ before t, before ++ [t] <+: ts → ∀ high, before.max? = some high →
    -2 ^ (width - 1) ≤ t - high ∧ t - high ≤ 2 ^ (width - 1) - 1

/-- The numbers behind low bits that come one after another. -/
def extendAll (width : Nat) (lows : List Nat) : List Nat :=
  lows.foldl (fun numbers low => numbers ++ [extend width numbers.max? low]) []

/-- By how much numbers are moved, so that the first of them has its place one turn in. -/
def shift (width : Nat) (ts : List Int) : Int :=
  (1 - (ts.head?.getD 0) / turn width) * turn width

/-- The numbers found are the true ones, moved, and so is the highest. Whatever comes next is not
cut off at zero, and for long no number leaves a signed word of 64 bits. -/
structure Recovers (width : Nat) (ts : List Int) (shift : Int) (numbers : List Nat)
    (highest : Option Nat) : Prop where
  moved : numbers.map Nat.cast = ts.map (· + shift)
  topped : highest.map Nat.cast = ts.max?.map (· + shift)
  uncut : ∀ high, highest = some high → ∀ low, 0 < extend width (some high) low ∧
    (extend width (some high) low : Int) = high + Int.bmod (low - high) (turn width)
  fits : numbers.length ≤ 2 ^ 31 → ∀ n ∈ numbers, n < 2 ^ 63

section Max

variable {α β : Type} [LinearOrder α] [LinearOrder β]

theorem max?_map {f : α → β} (hf : Monotone f) (l : List α) :
    (l.map f).max? = l.max?.map f := by
  cases hl : l.max? with
  | none => simpa using hl
  | some high =>
    obtain ⟨hmem, hhigh⟩ := List.max?_eq_some_iff.mp hl
    refine List.max?_eq_some_iff.mpr ⟨List.mem_map_of_mem hmem, fun b hb => ?_⟩
    obtain ⟨a, ha, rfl⟩ := List.mem_map.mp hb
    exact hf (hhigh a ha)

theorem max?_concat (l : List α) (a : α) :
    (l ++ [a]).max? = some (l.max?.elim a (max · a)) := by
  cases l with
  | nil => rfl
  | cons first rest =>
    rw [List.cons_append, List.max?_cons', List.max?_cons', List.foldl_concat]
    rfl

end Max

/-- The highest number so far is kept by raising it. -/
theorem raise_max? (numbers : List Nat) (n : Nat) :
    some (raise numbers.max? n) = (numbers ++ [n]).max? := by
  rw [max?_concat, raise]
  cases numbers.max? with
  | none => simp
  | some high => simp [Nat.max_comm]

theorem turn_eq (hwidth : 0 < width) : turn width = 2 * 2 ^ (width - 1) := by
  obtain ⟨w, rfl⟩ := Nat.exists_eq_add_of_le' hwidth
  rw [turn, Nat.one_shiftLeft, Nat.add_sub_cancel, Nat.pow_succ, Nat.mul_comm]

theorem low_cast (width : Nat) (t : Int) : (low width t : Int) = t % turn width :=
  Int.toNat_of_nonneg (Int.emod_nonneg t (Int.natCast_ne_zero.mpr (turn_pos width).ne'))

theorem low_lt (width : Nat) (t : Int) : low width t < turn width := by
  have hlt := Int.emod_lt_of_pos t (Int.natCast_pos.mpr (turn_pos width))
  rwa [← low_cast, Int.ofNat_lt] at hlt

theorem extend_pos {high : Nat} (hturned : turn width ≤ high) (low : Nat) :
    0 < extend width (some high) low := by
  have hturn := turn_pos width
  obtain ⟨-, hnear, -⟩ := extend_near low hturned
  omega

theorem extendAll_concat (width : Nat) (lows : List Nat) (low : Nat) :
    extendAll width (lows ++ [low]) =
      extendAll width lows ++ [extend width (extendAll width lows).max? low] :=
  List.foldl_concat ..

theorem length_extendAll (width : Nat) (lows : List Nat) :
    (extendAll width lows).length = lows.length := by
  induction lows using List.reverseRecOn with
  | nil => rfl
  | append_singleton lows low ih =>
    rw [extendAll_concat, List.length_append, List.length_append, ih]
    rfl

/-- Numbers begin one turn in, and each goes beyond the highest by half a turn at most. -/
theorem extendAll_bounds {lows : List Nat} (hlows : ∀ low ∈ lows, low < turn width) {high : Nat}
    (hhigh : (extendAll width lows).max? = some high) :
    turn width ≤ high ∧ high < 2 * turn width + lows.length * ((turn width + 1) / 2) := by
  induction lows using List.reverseRecOn generalizing high with
  | nil => cases hhigh
  | append_singleton lows low ih =>
    have hlow : low < turn width := hlows low (by simp)
    rw [extendAll_concat, ← raise_max?] at hhigh
    obtain rfl := Option.some.inj hhigh
    have hlength : (lows ++ [low]).length * ((turn width + 1) / 2) =
        lows.length * ((turn width + 1) / 2) + (turn width + 1) / 2 := by
      rw [List.length_append, List.length_singleton, Nat.succ_mul]
    rw [hlength]
    cases hbefore : (extendAll width lows).max? with
    | none =>
      rw [raise, extend, Option.getD_none]
      omega
    | some before =>
      obtain ⟨hturned, hlt⟩ := ih (fun other hother => hlows other (by simp [hother])) hbefore
      obtain ⟨-, -, hnear⟩ := extend_near low hturned
      rw [raise, Option.getD_some]
      omega

theorem steady_nil : Steady width [] := by
  rintro before t hbefore
  simp at hbefore

theorem Steady.concat {t : Int} (h : Steady width ts)
    (hnear : ∀ high, ts.max? = some high →
      -2 ^ (width - 1) ≤ t - high ∧ t - high ≤ 2 ^ (width - 1) - 1) :
    Steady width (ts ++ [t]) := by
  intro before t' hbefore high hhigh
  obtain hlast | hbefore := List.prefix_concat_iff.mp hbefore
  · obtain ⟨rfl, rfl⟩ := List.append_singleton_inj.mp hlast
    exact hnear high hhigh
  · exact h before t' hbefore high hhigh

theorem Steady.of_prefix {before : List Int} (h : Steady width ts) (hbefore : before <+: ts) :
    Steady width before :=
  fun earlier t hearlier => h earlier t (hearlier.trans hbefore)

/-- The first number ends up one turn in. -/
theorem first_moved (width : Nat) (first : Int) (rest : List Int) :
    first + shift width (first :: rest) = turn width + low width first := by
  have hsplit := Int.emod_add_ediv_mul first (turn width)
  rw [low_cast, shift, List.head?_cons, Option.getD_some, Int.sub_mul, Int.one_mul]
  omega

/-- A number within half a turn of the highest is found in its place. -/
theorem extend_moved (hwidth : 0 < width) {high : Int} {n : Nat}
    (hhigh : (n : Int) = high + shift width ts) (hturned : turn width ≤ n) {t : Int}
    (hbelow : -2 ^ (width - 1) ≤ t - high) (habove : t - high ≤ 2 ^ (width - 1) - 1) :
    (extend width (some n) (low width t) : Int) = t + shift width ts := by
  have hturn : (turn width : Int) = 2 * 2 ^ (width - 1) := by exact_mod_cast turn_eq hwidth
  obtain ⟨number, hnumber⟩ : ∃ number : Nat, (number : Int) = t + shift width ts :=
    ⟨(t + shift width ts).toNat, Int.toNat_of_nonneg (by omega)⟩
  have hlow : number % turn width = low width t % turn width := by
    have hshown : (number : Int) % turn width = low width t % turn width := by
      rw [hnumber, low_cast, Int.emod_emod, shift, Int.add_mul_emod_self_right]
    exact_mod_cast hshown
  rw [extend_eq hlow (by omega) (by omega), hnumber]

theorem max?_moved {numbers : List Nat} {s : Int} (h : numbers.map Nat.cast = ts.map (· + s)) :
    numbers.max?.map Nat.cast = ts.max?.map (· + s) := by
  have hcast : Monotone (Nat.cast : Nat → Int) := fun _ _ => Int.ofNat_le.mpr
  have hmove : Monotone (· + s) := fun _ _ hle => Int.add_le_add_right hle s
  rw [← max?_map hcast, h, max?_map hmove]

theorem lows_lt {lows : List Nat} (h : lows = ts.map (low width)) :
    ∀ low ∈ lows, low < turn width := by
  rintro _ hlow
  obtain ⟨t, -, rfl⟩ := List.mem_map.mp (h ▸ hlow)
  exact low_lt width t

/-- Numbers that stay near the highest are found, all moved by the same whole turns. -/
theorem Steady.extendAll (hwidth : 0 < width) (h : Steady width ts) :
    (extendAll width (ts.map (low width))).map Nat.cast = ts.map (· + shift width ts) := by
  induction ts using List.reverseRecOn with
  | nil => rfl
  | append_singleton ts t ih =>
    have hbefore := ih (h.of_prefix (List.prefix_append ts [t]))
    cases ts with
    | nil =>
      have hfirst := first_moved width t []
      simp only [List.nil_append, List.map_singleton, hfirst]
      rfl
    | cons first rest =>
      have hshift : shift width (first :: rest ++ [t]) = shift width (first :: rest) := rfl
      obtain ⟨high, hhigh⟩ : ∃ high, (first :: rest).max? = some high := ⟨_, List.max?_cons'⟩
      have hmax := max?_moved hbefore
      rw [hhigh, Option.map_some] at hmax
      obtain ⟨n, hn, hmoved⟩ := Option.map_eq_some_iff.mp hmax
      have hturned := (extendAll_bounds (lows_lt rfl) hn).1
      obtain ⟨hbelow, habove⟩ := h (first :: rest) t List.prefix_rfl high hhigh
      have hnext := extend_moved hwidth hmoved hturned hbelow habove
      rw [List.map_append, List.map_singleton, extendAll_concat, hn, List.map_append,
        List.map_singleton, hnext, hbefore, hshift, List.map_append, List.map_singleton]

theorem turn_dvd_shift (width : Nat) (ts : List Int) : (turn width : Int) ∣ shift width ts :=
  Int.dvd_mul_left _ _

/-- The first number settles by how much all are moved. -/
theorem shift_of_prefix {first : Int} {rest : List Int} (h : first :: rest <+: ts) :
    shift width (first :: rest) = shift width ts := by
  obtain ⟨after, rfl⟩ := h
  rfl

/-- From the low bits seen so far, the true numbers so far are found. -/
theorem Steady.recovers (hwidth : 0 < width) (hnarrow : width ≤ 32) (h : Steady width ts)
    {lows : List Nat} (hlows : lows <+: ts.map (low width)) :
    Recovers width (ts.take lows.length) (shift width ts) (Serial.extendAll width lows)
      (Serial.extendAll width lows).max? := by
  obtain ⟨before, hbefore, rfl⟩ := List.prefix_map_iff.mp hlows
  rw [List.length_map, ← List.prefix_iff_eq_take.mp hbefore]
  have hmoved : (Serial.extendAll width (before.map (low width))).map Nat.cast =
      before.map (· + shift width ts) := by
    cases before with
    | nil => rfl
    | cons first rest =>
      rw [← shift_of_prefix hbefore]
      exact (h.of_prefix hbefore).extendAll hwidth
  refine ⟨hmoved, max?_moved hmoved, fun high hhigh low => ?_, fun hshort n hn => ?_⟩
  · have hturned := (extendAll_bounds (lows_lt rfl) hhigh).1
    exact ⟨extend_pos hturned low, extend_cast low hturned⟩
  · obtain ⟨high, hhigh⟩ := Option.isSome_iff_exists.mp (List.isSome_max?_of_mem hn)
    have hle := (List.max?_eq_some_iff.mp hhigh).2 n hn
    have hlt := (extendAll_bounds (lows_lt rfl) hhigh).2
    rw [length_extendAll] at hshort
    have hturn : turn width ≤ 2 ^ 32 := by
      rw [turn, Nat.one_shiftLeft]
      exact Nat.pow_le_pow_right (by decide) hnarrow
    have hsteps := Nat.mul_le_mul hshort (show (turn width + 1) / 2 ≤ 2 ^ 31 by omega)
    omega

end Serial

namespace FrameHistory

/-- The packets that are not refused. -/
def accepted (h : FrameHistory) : List Packet → List Packet
  | [] => []
  | p :: rest =>
    let (h, outcome) := h.observe p.layer p.descriptor p.graph
    (outcome.toOption.map fun _ => p).toList ++ h.accepted rest

/-- The low bits of frame numbers, as packets show them. -/
def lows (packets : List Packet) : List Nat := packets.map (·.descriptor.frameNumber.toNat)

theorem accepted_append (h : FrameHistory) (a b : List Packet) :
    h.accepted (a ++ b) = h.accepted a ++ (h.observeAll a).1.accepted b := by
  induction a generalizing h with
  | nil => rfl
  | cons p rest ih => simp only [List.cons_append, accepted, observeAll, ih, List.append_assoc]

theorem accepted_singleton (h : FrameHistory) (p : Packet) :
    h.accepted [p] =
      ((h.observe p.layer p.descriptor p.graph).2.toOption.map fun _ => p).toList := by
  simp only [accepted, List.append_nil]

theorem lows_concat (packets : List Packet) (p : Packet) :
    lows (packets ++ [p]) = lows packets ++ [p.descriptor.frameNumber.toNat] := List.map_append

/-- Frames are numbered by the packets that were accepted, in the order in which they came. -/
theorem observeAll_frames (packets : List Packet) :
    (empty.observeAll packets).2.map (·.frame) =
      Serial.extendAll 16 (lows (empty.accepted packets)) := by
  induction packets using List.reverseRecOn with
  | nil => rfl
  | append_singleton packets p ih =>
    rw [accepted_append, accepted_singleton]
    obtain ⟨hsame, fault, hrefused⟩ | ⟨seen, hseen, hok, -⟩ := run_concat_cases packets p
    · rw [hsame, ih, hrefused]
      exact congrArg (Serial.extendAll 16 <| lows ·) (List.append_nil _).symm
    · obtain ⟨ds, -, hsighting⟩ := observe_ok (Prod.ext rfl hok)
      have hframe : seen.frame = Serial.extend 16
          ((empty.observeAll packets).2.map (·.frame)).max? p.descriptor.frameNumber.toNat := by
        rw [hsighting, ← observeAll_highest]
        rfl
      rw [hseen, hok, List.map_append, List.map_singleton, hframe, ih, ← Serial.extendAll_concat]
      exact congrArg (Serial.extendAll 16) (lows_concat _ p).symm

theorem lows_prefix {before packets : List Packet} (h : before <+: packets) :
    lows (empty.accepted before) <+: lows (empty.accepted packets) := by
  obtain ⟨after, rfl⟩ := h
  rw [accepted_append]
  exact (List.prefix_append _ _).map _

end FrameHistory

namespace ArrivalLog

def Act.sequence? : Act → Option UInt32
  | .packet p => some p.sequence
  | .report => none

/-- The sequence numbers that packets show. -/
def lows (acts : List Act) : List Nat := acts.filterMap fun act => act.sequence?.map (·.toNat)

/-- The numbers that packets are known by, those too that come too late. -/
def numbers (log : ArrivalLog) : List Act → List Nat
  | [] => []
  | act :: acts => (act.sequence?.map log.numberOf).toList ++ (log.step act).numbers acts

theorem numbers_concat (log : ArrivalLog) (acts : List Act) (act : Act) :
    log.numbers (acts ++ [act]) =
      log.numbers acts ++ (act.sequence?.map (log.run acts).numberOf).toList := by
  induction acts generalizing log with
  | nil => exact List.append_nil _
  | cons first rest ih =>
    rw [List.cons_append, numbers, ih, numbers, List.append_assoc]
    rfl

/-- Packets are numbered in the order in which they come, whenever reports are taken, and the
highest number is kept. -/
theorem run_numbers (epoch : Time) (acts : List Act) :
    (empty epoch).numbers acts = Serial.extendAll 32 (lows acts) ∧
      ((empty epoch).run acts).highest = ((empty epoch).numbers acts).max? := by
  induction acts using List.reverseRecOn with
  | nil => exact ⟨rfl, rfl⟩
  | append_singleton acts act ih =>
    obtain ⟨hnumbers, hhighest⟩ := ih
    rw [run, List.foldl_concat, ← run, numbers_concat, lows, List.filterMap_append, ← lows]
    cases act with
    | packet p =>
      have hnumber : ((empty epoch).run acts).numberOf p.sequence =
          Serial.extend 32 ((empty epoch).numbers acts).max? p.sequence.toNat := by
        rw [numberOf, hhighest]
      refine ⟨?_, ?_⟩
      · rw [Act.sequence?, Option.map_some, hnumber, hnumbers]
        exact (Serial.extendAll_concat 32 (lows acts) p.sequence.toNat).symm
      · rw [step, (record_fields _ _ _ _ _ _).1, hhighest]
        exact Serial.raise_max? _ _
    | report =>
      refine ⟨?_, ?_⟩
      · rw [hnumbers]
        simp [Act.sequence?]
      · rw [step, (takeReport_fields _).2.1, hhighest]
        exact congrArg List.max? (List.append_nil _).symm

theorem lows_prefix {before acts : List Act} (h : before <+: acts) : lows before <+: lows acts := by
  obtain ⟨after, rfl⟩ := h
  exact ⟨lows after, List.filterMap_append.symm⟩

end ArrivalLog

/-- True numbers of which each comes within half a turn of the highest before it are found behind
the low bits that the wire shows, all moved by the same whole turns. Frames are so numbered by the
packets that are accepted, and packets by the log of arrivals, however reports come between. -/
theorem numbering_recovered :
    (∀ (packets : List FrameHistory.Packet) (ts : List Int), Serial.Steady 16 ts →
      FrameHistory.lows (FrameHistory.empty.accepted packets) = ts.map (Serial.low 16) →
      ∃ shift : Int, 2 ^ 16 ∣ shift ∧ ∀ before, before <+: packets →
        let run := FrameHistory.empty.observeAll before
        Serial.Recovers 16 (ts.take (FrameHistory.empty.accepted before).length) shift
          (run.2.map (·.frame)) run.1.highest) ∧
    ∀ (epoch : Time) (acts : List ArrivalLog.Act) (ts : List Int), Serial.Steady 32 ts →
      ArrivalLog.lows acts = ts.map (Serial.low 32) →
      ∃ shift : Int, 2 ^ 32 ∣ shift ∧ ∀ before, before <+: acts →
        let log := ArrivalLog.empty epoch
        Serial.Recovers 32 (ts.take (ArrivalLog.lows before).length) shift (log.numbers before)
          (log.run before).highest := by
  constructor
  · intro packets ts hsteady hlows
    refine ⟨Serial.shift 16 ts, Serial.turn_dvd_shift 16 ts, fun before hbefore => ?_⟩
    have hpart := FrameHistory.lows_prefix hbefore
    have hrecovers := hsteady.recovers (by decide) (by decide) (hlows ▸ hpart)
    rw [FrameHistory.lows, List.length_map, ← FrameHistory.lows] at hrecovers
    intro run
    rwa [FrameHistory.observeAll_highest, FrameHistory.observeAll_frames]
  · intro epoch acts ts hsteady hlows
    refine ⟨Serial.shift 32 ts, Serial.turn_dvd_shift 32 ts, fun before hbefore => ?_⟩
    have hpart := ArrivalLog.lows_prefix hbefore
    have hrecovers := hsteady.recovers (by decide) (by decide) (hlows ▸ hpart)
    obtain ⟨hnumbers, hhighest⟩ := ArrivalLog.run_numbers epoch before
    intro log
    rwa [hhighest, hnumbers]

section HalfTurns

open FrameHistory (frameStart)
open ArrivalLog (Act)

variable {width : Nat}

/-- Numbers around zero that go as far down and up as they may. -/
def halfTurns (width : Nat) : List Int := [-1, 0, -2 ^ (width - 1), 2 ^ (width - 1) - 1]

theorem halfTurns_steady (hwidth : 1 < width) : Serial.Steady width (halfTurns width) := by
  have hturn : (2 : Int) ≤ 2 ^ (width - 1) := by
    have hpow := Nat.pow_le_pow_right (show 0 < 2 by decide) (Nat.le_sub_one_of_lt hwidth)
    exact_mod_cast hpow
  have hone := (Serial.steady_nil : Serial.Steady width []).concat (t := -1) (by rintro _ ⟨⟩)
  have htwo := hone.concat (t := 0) fun high hhigh => by
    obtain rfl : -1 = high := Option.some.inj hhigh
    omega
  have hthree := htwo.concat (t := -2 ^ (width - 1)) fun high hhigh => by
    obtain rfl : 0 = high := Option.some.inj hhigh
    omega
  exact hthree.concat fun high hhigh => by
    obtain rfl : max 0 (-2 ^ (width - 1)) = high := Option.some.inj hhigh
    omega

/-- A packet that is refused, and a report in between. -/
theorem numbering_recovered_half_turns :
    let packets := [frameStart 65535 ⟨0, 0⟩ [], frameStart 0 ⟨0, 1⟩ [1], frameStart 9 ⟨7, 7⟩ [],
      frameStart 32768 ⟨0, 0⟩ [], frameStart 32767 ⟨0, 0⟩ []]
    let packet (sequence : UInt32) := Act.packet ⟨sequence, 0, 90000, 100, 0⟩
    let acts := [packet 4294967295, packet 0, .report, packet 2147483648, packet 2147483647]
    (Serial.Steady 16 (halfTurns 16) ∧
      FrameHistory.lows (FrameHistory.empty.accepted packets) = (halfTurns 16).map (Serial.low 16) ∧
      ∃ shift : Int, 2 ^ 16 ∣ shift ∧ ∀ before, before <+: packets →
        let run := FrameHistory.empty.observeAll before
        Serial.Recovers 16 ((halfTurns 16).take (FrameHistory.empty.accepted before).length) shift
          (run.2.map (·.frame)) run.1.highest) ∧
    Serial.Steady 32 (halfTurns 32) ∧
    ArrivalLog.lows acts = (halfTurns 32).map (Serial.low 32) ∧
    ∃ shift : Int, 2 ^ 32 ∣ shift ∧ ∀ before, before <+: acts →
      let log := ArrivalLog.empty 0
      Serial.Recovers 32 ((halfTurns 32).take (ArrivalLog.lows before).length) shift
        (log.numbers before) (log.run before).highest := by
  intro packets packet acts
  have hframes : FrameHistory.lows (FrameHistory.empty.accepted packets) =
      (halfTurns 16).map (Serial.low 16) := by decide +kernel
  have hpackets : ArrivalLog.lows acts = (halfTurns 32).map (Serial.low 32) := by decide +kernel
  have hsteady : Serial.Steady 16 (halfTurns 16) := halfTurns_steady (by decide)
  have hsteady' : Serial.Steady 32 (halfTurns 32) := halfTurns_steady (by decide)
  exact ⟨⟨hsteady, hframes, numbering_recovered.1 packets _ hsteady hframes⟩,
    hsteady', hpackets, numbering_recovered.2 0 acts _ hsteady' hpackets⟩

end HalfTurns

end MediaRelay
