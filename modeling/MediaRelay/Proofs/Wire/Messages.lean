import MediaRelay.Proofs.Wire.Canonical
import MediaRelay.Wire.Feedback

/-!
The wire form of feedback messages. A delta that fits in one byte may also be spelled with two, so a
report can be read from several byte strings (`Spells`). `write` takes the shortest spelling, and
`isWide` marks the bytes that another one spends.
-/

namespace MediaRelay

open Wire (Fault)
open Wire.Word

theorem Wire.split_append {n : Nat} {front : Bytes} (h : front.length = n) (rest : Bytes) :
    Wire.split n (front ++ rest) = .ok (front, rest) :=
  Wire.split_eq_ok_iff.mpr ⟨h, rfl⟩

theorem Kind.code_of_ofCode? {b : UInt8} {k : Kind} (h : ofCode? b = some k) : k.code = b := by
  unfold ofCode? at h
  split at h <;> cases h <;> rfl

namespace Status

/-- The symbol and the delta from which a status is read. -/
inductive Spells : Status → Nat × Bytes → Prop
  | lost : Spells .lost (0, [])
  | short {b : Bytes} (h : b.length = 1) : Spells (.received (value b * unit)) (1, b)
  | long {b : Bytes} (h : b.length = 2) : Spells (.received (signed16 (value b) * unit)) (2, b)

theorem Spells.symbol_lt {s : Status} {w : Nat × Bytes} (h : Spells s w) : w.1 < 4 := by
  cases h <;> simp

theorem read_eq_ok_iff {symbol : Nat} {b rest : Bytes} {s : Status} :
    read symbol b = .ok (s, rest) ↔ ∃ delta, Spells s (symbol, delta) ∧ b = delta ++ rest := by
  constructor
  · intro h
    unfold read at h
    split at h
    · cases h
      exact ⟨[], .lost, rfl⟩
    · rw [Guard.bind_eq_ok] at h
      obtain ⟨⟨delta, left⟩, hsplit, h⟩ := h
      obtain ⟨hlength, rfl⟩ := Wire.split_eq_ok_iff.mp hsplit
      cases h
      exact ⟨delta, .short hlength, rfl⟩
    · rw [Guard.bind_eq_ok] at h
      obtain ⟨⟨delta, left⟩, hsplit, h⟩ := h
      obtain ⟨hlength, rfl⟩ := Wire.split_eq_ok_iff.mp hsplit
      cases h
      exact ⟨delta, .long hlength, rfl⟩
    · cases h
  · rintro ⟨delta, hspells, rfl⟩
    cases hspells with
    | lost => rfl
    | short hlength =>
      exact Guard.bind_eq_ok.mpr ⟨_, Wire.split_append hlength rest, rfl⟩
    | long hlength =>
      exact Guard.bind_eq_ok.mpr ⟨_, Wire.split_append hlength rest, rfl⟩

/-- One byte is enough for the delta. -/
def isShort : Status → Bool
  | .lost => false
  | .received delta => 0 ≤ delta / unit ∧ delta / unit ≤ 255

/-- A symbol that spends two bytes where one is enough. -/
def isWide (s : Status) (symbol : Nat) : Bool := symbol == 2 && s.isShort

/-- How a delta of so many steps is written. -/
theorem write_steps (steps : Int) :
    write (.received (steps * unit)) =
      if 0 ≤ steps ∧ steps ≤ 255 then .ok (1, bytes 1 steps.toNat)
      else if -32768 ≤ steps ∧ steps ≤ 32767 then .ok (2, bytes16 steps)
      else .error (.deltaOutOfRange (steps * unit)) := by
  have hdiv : steps * unit / unit = steps := Int.mul_ediv_cancel steps (by decide)
  have hmod : steps * unit % unit = 0 := Int.mul_emod_left steps unit
  simp only [write, hdiv, hmod, ne_eq, not_true_eq_false, if_false, bytes, Nat.mul_zero,
    Nat.shiftRight_zero]

@[simp] theorem isShort_steps (steps : Int) :
    isShort (.received (steps * unit)) = decide (0 ≤ steps ∧ steps ≤ 255) := by
  rw [isShort, Int.mul_ediv_cancel steps (by decide)]

theorem spells_steps_short {steps : Int} (h : 0 ≤ steps ∧ steps ≤ 255) :
    Spells (.received (steps * unit)) (1, bytes 1 steps.toNat) := by
  have hvalue : (value (bytes 1 steps.toNat) : Int) = steps := by
    rw [value_bytes]
    omega
  simpa only [hvalue] using Spells.short (length_bytes 1 steps.toNat)

theorem spells_steps_long {steps : Int} (h : -32768 ≤ steps ∧ steps ≤ 32767) :
    Spells (.received (steps * unit)) (2, bytes16 steps) := by
  simpa only [signed16_bytes16 h.1 h.2] using Spells.long (b := bytes16 steps) (length_bytes 2 _)

/-- A delta that can be written is a whole number of steps. -/
theorem exists_steps_of_write {delta : Int} {w : Nat × Bytes} (h : write (.received delta) = .ok w) :
    ∃ steps, delta = steps * unit := by
  rw [write] at h
  simp only [ne_eq, ite_not] at h
  split at h
  case isFalse => cases h
  rename_i haligned
  exact ⟨delta / unit, (Int.ediv_mul_cancel (Int.dvd_of_emod_eq_zero haligned)).symm⟩

theorem spells_of_write {s : Status} {w : Nat × Bytes} (h : s.write = .ok w) :
    Spells s w ∧ s.isWide w.1 = false := by
  cases s with
  | lost =>
    cases h
    exact ⟨.lost, rfl⟩
  | received delta =>
    obtain ⟨steps, rfl⟩ := exists_steps_of_write h
    rw [write_steps] at h
    split at h
    · rename_i hshort
      cases h
      exact ⟨spells_steps_short hshort, rfl⟩
    split at h
    case isFalse => cases h
    rename_i hlong hrange
    cases h
    exact ⟨spells_steps_long hrange, by simp [isWide, hlong]⟩

/-- Whatever is read can be written, and the spelling changes only where it was wide. -/
theorem write_of_spells {s : Status} {w : Nat × Bytes} (h : Spells s w) :
    ∃ w', s.write = .ok w' ∧ w.2.length = w'.2.length + (s.isWide w.1).toNat ∧
      (s.isWide w.1 = false → w' = w) := by
  cases h with
  | lost => exact ⟨_, rfl, rfl, fun _ => rfl⟩
  | @short b hlength =>
    have hlt := value_lt b
    rw [hlength] at hlt
    have hback := bytes_value_self b
    rw [hlength] at hback
    have hwrite : write (.received (value b * unit)) = .ok (1, b) := by
      rw [write_steps, if_pos (by omega), Int.toNat_natCast, hback]
    exact ⟨_, hwrite, rfl, fun _ => rfl⟩
  | @long b hlength =>
    have hrange := signed16_bounds (value b)
    have hwrite := write_steps (signed16 (value b))
    by_cases hshort : 0 ≤ signed16 (value b) ∧ signed16 (value b) ≤ 255
    · rw [if_pos hshort] at hwrite
      exact ⟨_, hwrite, by simp [isWide, hshort, hlength], by simp [isWide, hshort]⟩
    · rw [if_neg hshort, if_pos hrange, bytes16_signed16 hlength] at hwrite
      exact ⟨_, hwrite, by simp [isWide, hshort], fun _ => rfl⟩

/-- A status that has a wire form: its delta is a whole number of steps, not too many. -/
def IsWritable : Status → Prop
  | .lost => True
  | .received delta => ∃ steps, delta = steps * unit ∧ -32768 ≤ steps ∧ steps ≤ 32767

theorem exists_spells_iff {s : Status} : (∃ w, Spells s w) ↔ s.IsWritable := by
  constructor
  · rintro ⟨w, h⟩
    cases h with
    | lost => trivial
    | @short b hlength =>
      have hlt := value_lt b
      rw [hlength] at hlt
      exact ⟨_, rfl, by omega, by omega⟩
    | long => exact ⟨_, rfl, signed16_bounds _⟩
  · intro h
    cases s with
    | lost => exact ⟨_, .lost⟩
    | received delta =>
      obtain ⟨steps, rfl, hrange⟩ := h
      exact ⟨_, spells_steps_long hrange⟩

/-- A symbol with the bytes of its delta, for each status of a list. -/
abbrev SpellsAll (statuses : List Status) (spelled : List (Nat × Bytes)) : Prop :=
  List.Forall₂ Spells statuses spelled

theorem SpellsAll.symbol_lt {statuses : List Status} {spelled : List (Nat × Bytes)}
    (h : SpellsAll statuses spelled) : ∀ x ∈ spelled.map (·.1), x < 4 := by
  induction h with
  | nil => simp
  | cons hspells _ ih => simpa using ⟨hspells.symbol_lt, by simpa using ih⟩

theorem readAll_eq_ok_iff {symbols : List Nat} {b rest : Bytes} {statuses : List Status} :
    readAll symbols b = .ok (statuses, rest) ↔ ∃ spelled, SpellsAll statuses spelled ∧
      spelled.map (·.1) = symbols ∧ b = spelled.flatMap (·.2) ++ rest := by
  induction symbols generalizing b rest statuses with
  | nil =>
    constructor
    · intro h
      cases h
      exact ⟨[], .nil, rfl, rfl⟩
    · rintro ⟨spelled, hspelled, hsymbols, rfl⟩
      cases List.map_eq_nil_iff.mp hsymbols
      cases hspelled
      rfl
  | cons symbol symbols ih =>
    simp only [readAll, Guard.bind_eq_ok]
    constructor
    · rintro ⟨⟨status, b₁⟩, hread, ⟨statuses', b₂⟩, hall, h⟩
      obtain ⟨delta, hspells, rfl⟩ := read_eq_ok_iff.mp hread
      cases h
      obtain ⟨spelled, hspelled, rfl, rfl⟩ := ih.mp hall
      exact ⟨(symbol, delta) :: spelled, .cons hspells hspelled, rfl, by simp⟩
    · rintro ⟨spelled, hspelled, hsymbols, rfl⟩
      cases hspelled with
      | nil => cases hsymbols
      | @cons status w statuses' spelled hspells hspelled =>
        obtain ⟨symbol', delta⟩ := w
        obtain ⟨rfl, htail⟩ := List.cons.inj hsymbols
        refine ⟨(status, spelled.flatMap (·.2) ++ rest), read_eq_ok_iff.mpr ⟨delta, hspells, ?_⟩,
          (statuses', rest), ih.mpr ⟨spelled, hspelled, htail, rfl⟩, rfl⟩
        simp

/-- The bytes that symbols spend on deltas beyond what the statuses need. -/
def wideCount : List Status → List Nat → Nat
  | status :: statuses, symbol :: symbols =>
    (status.isWide symbol).toNat + wideCount statuses symbols
  | _, _ => 0

/-- Symbols after those of the statuses do not count. -/
theorem wideCount_append {statuses : List Status} {spelled : List (Nat × Bytes)}
    (h : SpellsAll statuses spelled) (more : List Nat) :
    wideCount statuses (spelled.map (·.1) ++ more) = wideCount statuses (spelled.map (·.1)) := by
  induction h with
  | nil => rfl
  | cons _ _ ih => simp only [List.map_cons, List.cons_append, wideCount, ih]

theorem spellsAll_of_write {statuses : List Status} {spelled : List (Nat × Bytes)}
    (h : statuses.mapM write = .ok spelled) :
    SpellsAll statuses spelled ∧ wideCount statuses (spelled.map (·.1)) = 0 := by
  rw [Guard.mapM_eq_ok] at h
  induction h with
  | nil => exact ⟨.nil, rfl⟩
  | cons hwrite _ ih =>
    obtain ⟨hspells, hwide⟩ := spells_of_write hwrite
    exact ⟨.cons hspells ih.1, by simp [wideCount, hwide, ih.2]⟩

theorem write_of_spellsAll {statuses : List Status} {spelled : List (Nat × Bytes)}
    (h : SpellsAll statuses spelled) :
    ∃ spelled', statuses.mapM write = .ok spelled' ∧
      (spelled.flatMap (·.2)).length =
        (spelled'.flatMap (·.2)).length + wideCount statuses (spelled.map (·.1)) ∧
      (wideCount statuses (spelled.map (·.1)) = 0 → spelled' = spelled) := by
  simp only [Guard.mapM_eq_ok]
  induction h with
  | nil => exact ⟨[], .nil, rfl, fun _ => rfl⟩
  | cons hspells _ ih =>
    obtain ⟨w', hwrite, hlength, hsame⟩ := write_of_spells hspells
    obtain ⟨spelled', hwrites, hlengths, hsames⟩ := ih
    refine ⟨w' :: spelled', .cons hwrite hwrites, ?_, fun hzero => ?_⟩
    · simp only [List.flatMap_cons, List.length_append, List.map_cons, wideCount]
      omega
    · simp only [List.map_cons, wideCount, Nat.add_eq_zero_iff, Bool.toNat_eq_zero] at hzero
      rw [hsame hzero.1, hsames hzero.2]

theorem exists_spellsAll_iff {statuses : List Status} :
    (∃ spelled, SpellsAll statuses spelled) ↔ ∀ s ∈ statuses, s.IsWritable := by
  induction statuses with
  | nil => simp
  | cons s statuses ih =>
    rw [List.forall_mem_cons, ← exists_spells_iff, ← ih]
    constructor
    · rintro ⟨_, hspelled⟩
      cases hspelled with
      | cons hspells hrest => exact ⟨⟨_, hspells⟩, _, hrest⟩
    · rintro ⟨⟨w, hspells⟩, spelled, hrest⟩
      exact ⟨w :: spelled, .cons hspells hrest⟩

theorem symbolsOf_four {a b c d : Nat} (ha : a < 4) (hb : b < 4) (hc : c < 4) (hd : d < 4) :
    symbolsOf (.ofNat (a * 64 + b * 16 + c * 4 + d)) = [a, b, c, d] := by
  simp only [symbolsOf, UInt8.toNat_ofNat', List.cons.injEq, and_true]
  omega

theorem pack_symbolsOf (b : Bytes) : pack (b.flatMap symbolsOf) = b := by
  induction b with
  | nil => rfl
  | cons x b ih =>
    have hx : UInt8.ofNat (x.toNat / 64 * 64 + x.toNat / 16 % 4 * 16 + x.toNat / 4 % 4 * 4 +
        x.toNat % 4) = x := by
      apply UInt8.toNat_inj.mp
      have := x.toNat_lt
      rw [UInt8.toNat_ofNat']
      omega
    simp only [List.flatMap_cons, symbolsOf, List.cons_append, List.nil_append, pack, ih, hx]

theorem length_pack (symbols : List Nat) : (pack symbols).length = (2 * symbols.length + 7) / 8 := by
  induction symbols using pack.induct with
  | case1 => rfl
  | case2 | case3 | case4 => simp [pack]
  | case5 a b c d rest ih =>
    simp only [pack, List.length_cons, ih]
    omega

/-- The last byte is filled with symbols of lost packets. -/
theorem symbolsOf_pack {symbols : List Nat} (h : ∀ x ∈ symbols, x < 4) :
    (pack symbols).flatMap symbolsOf =
      symbols ++ List.replicate (4 * ((2 * symbols.length + 7) / 8) - symbols.length) 0 := by
  induction symbols using pack.induct with
  | case1 => rfl
  | case2 a =>
    have hbyte := symbolsOf_four (h a (by simp)) (Nat.zero_lt_succ 3) (Nat.zero_lt_succ 3)
      (Nat.zero_lt_succ 3)
    simpa [pack] using hbyte
  | case3 a b =>
    have hbyte := symbolsOf_four (h a (by simp)) (h b (by simp)) (Nat.zero_lt_succ 3)
      (Nat.zero_lt_succ 3)
    simpa [pack] using hbyte
  | case4 a b c =>
    have hbyte := symbolsOf_four (h a (by simp)) (h b (by simp)) (h c (by simp))
      (Nat.zero_lt_succ 3)
    simpa [pack] using hbyte
  | case5 a b c d rest ih =>
    have hbyte := symbolsOf_four (h a (by simp)) (h b (by simp)) (h c (by simp)) (h d (by simp))
    have hfill : 4 * ((2 * (rest.length + 4) + 7) / 8) - (rest.length + 4) =
        4 * ((2 * rest.length + 7) / 8) - rest.length := by omega
    simp only [pack, List.flatMap_cons, hbyte, ih fun x hx => h x (by simp [hx]),
      List.cons_append, List.nil_append, List.length_cons, hfill]

theorem length_symbolsOf (b : Bytes) : (b.flatMap symbolsOf).length = 4 * b.length := by
  simp [List.length_flatMap, symbolsOf, Nat.mul_comm]

/-- A map filled with zeros is packed from the symbols before the fill. -/
theorem pack_take {bitmap : Bytes} {count : Nat} (hlength : bitmap.length = (2 * count + 7) / 8)
    (hfill : ((bitmap.flatMap symbolsOf).drop count).all (· == 0)) :
    pack ((bitmap.flatMap symbolsOf).take count) = bitmap := by
  have hsymbols : ∀ x ∈ bitmap.flatMap symbolsOf, x < 4 := by
    intro x hx
    obtain ⟨b, -, hb⟩ := List.mem_flatMap.mp hx
    have := b.toNat_lt
    simp only [symbolsOf, List.mem_cons, List.not_mem_nil, or_false] at hb
    omega
  have htotal := length_symbolsOf bitmap
  have hcount : ((bitmap.flatMap symbolsOf).take count).length = count :=
    List.length_take_of_le (by omega)
  have hzeros : (bitmap.flatMap symbolsOf).drop count =
      List.replicate (4 * ((2 * count + 7) / 8) - count) 0 := by
    rw [List.eq_replicate_iff, List.length_drop, htotal, hlength]
    exact ⟨rfl, fun x hx => by simpa using List.all_eq_true.mp hfill x hx⟩
  -- both sides unpack to the same symbols
  rw [← pack_symbolsOf (pack _), symbolsOf_pack fun x hx => hsymbols x (List.mem_of_mem_take hx),
    hcount, ← hzeros, List.take_append_drop, pack_symbolsOf]

end Status

namespace Report

/-- The bytes that stand for a report, its statuses spelled in some way. -/
def octets (r : Report) (spelled : List (Nat × Bytes)) : Bytes :=
  bytes 4 r.base.toNat ++ bytes 4 r.packetCount ++ bytes 4 r.referenceMs.toNat ++
    Status.pack (spelled.map (·.1)) ++ spelled.flatMap (·.2)

theorem encode_eq_ok_iff {r : Report} {b : Bytes} :
    r.encode = .ok b ↔ r.packetCount ≤ maxPackets ∧
      ∃ spelled, r.statuses.mapM Status.write = .ok spelled ∧ r.octets spelled = b := by
  simp only [encode, Guard.when_eq_ok, Guard.bind_eq_ok, Guard.pure_eq, Except.ok.injEq, not_lt,
    gt_iff_lt, octets]

theorem decode_octets {r : Report} {spelled : List (Nat × Bytes)}
    (hcount : r.packetCount ≤ maxPackets) (hspelled : Status.SpellsAll r.statuses spelled)
    (rest : Bytes) : decode (r.octets spelled ++ rest) = .ok (r, rest) := by
  have hbase := u32_bytes r.base
  have hreference := u32_bytes r.referenceMs
  have hvalue : value (bytes 4 r.packetCount) = r.packetCount := by
    rw [value_bytes, Nat.mod_eq_of_lt (Nat.lt_of_le_of_lt hcount (by decide))]
  have hlength : (spelled.map (·.1)).length = r.packetCount := by
    rw [List.length_map, ← hspelled.length_eq, packetCount]
  have hsplit : Wire.split ((2 * r.packetCount + 7) / 8)
      (Status.pack (spelled.map (·.1)) ++ (spelled.flatMap (·.2) ++ rest)) =
        .ok (Status.pack (spelled.map (·.1)), spelled.flatMap (·.2) ++ rest) :=
    Wire.split_append (by rw [Status.length_pack, hlength]) _
  have hsymbols := Status.symbolsOf_pack hspelled.symbol_lt
  rw [hlength] at hsymbols
  have hread : Status.readAll (spelled.map (·.1)) (spelled.flatMap (·.2) ++ rest) =
      .ok (r.statuses, rest) :=
    Status.readAll_eq_ok_iff.mpr ⟨spelled, hspelled, rfl, rfl⟩
  -- the pattern of `decode` needs the words byte by byte
  simp only [bytes] at hbase hreference hvalue
  simp only [octets, bytes, List.cons_append, List.nil_append, List.append_assoc, decode, hbase,
    hreference, hvalue, gt_iff_lt, Nat.not_lt.mpr hcount, if_false, hsplit, Guard.ok_bind, hsymbols,
    List.drop_left' hlength, List.take_left' hlength]
  rw [if_pos (by simp), hread]
  rfl

theorem octets_of_decode {r : Report} {b rest : Bytes} (h : decode b = .ok (r, rest)) :
    r.packetCount ≤ maxPackets ∧
      ∃ spelled, Status.SpellsAll r.statuses spelled ∧ b = r.octets spelled ++ rest := by
  unfold decode at h
  split at h
  case h_2 => cases h
  rename_i b₁ b₂ b₃ b₄ n₁ n₂ n₃ n₄ m₁ m₂ m₃ m₄ tail
  simp only [Guard.when_eq_ok, Guard.unless_eq_ok, Guard.bind_eq_ok] at h
  obtain ⟨hcount, ⟨bitmap, left⟩, hsplit, hfill, ⟨statuses, left'⟩, hread, h⟩ := h
  obtain ⟨hbitmap, rfl⟩ := Wire.split_eq_ok_iff.mp hsplit
  obtain ⟨spelled, hspelled, hsymbols, rfl⟩ := Status.readAll_eq_ok_iff.mp hread
  have hpack := Status.pack_take hbitmap hfill
  rw [← hsymbols] at hpack
  have hlength : statuses.length = value [n₁, n₂, n₃, n₄] := by
    rw [hspelled.length_eq, ← List.length_map (f := fun w : Nat × Bytes => w.1), hsymbols,
      List.length_take_of_le]
    rw [Status.length_symbolsOf, hbitmap]
    omega
  have hwritten : bytes 4 statuses.length = [n₁, n₂, n₃, n₄] := by
    rw [hlength]
    exact bytes_value_self [n₁, n₂, n₃, n₄]
  cases h
  refine ⟨by rw [packetCount, hlength]; exact Nat.not_lt.mp hcount, spelled, hspelled, ?_⟩
  simp only [octets, bytes_u32, packetCount, hwritten, hpack, List.cons_append, List.nil_append,
    List.append_assoc]

/-- The symbols that the bytes of a report begin with, and bytes beyond them. -/
def symbolsIn (b : Bytes) : List Nat := (b.drop 12).flatMap Status.symbolsOf

/-- The bytes of a report that its shortest form saves. -/
def wideBytes (r : Report) (b : Bytes) : Nat := Status.wideCount r.statuses (symbolsIn b)

theorem wideBytes_octets {r : Report} {spelled : List (Nat × Bytes)}
    (h : Status.SpellsAll r.statuses spelled) (rest : Bytes) :
    r.wideBytes (r.octets spelled ++ rest) =
      Status.wideCount r.statuses (spelled.map (·.1)) := by
  have hfront : (bytes 4 r.base.toNat ++ bytes 4 r.packetCount ++
      bytes 4 r.referenceMs.toNat).length = 12 := by simp
  rw [wideBytes, symbolsIn, octets, List.append_assoc, List.append_assoc, List.drop_left' hfront,
    List.flatMap_append, Status.symbolsOf_pack h.symbol_lt, List.append_assoc,
    Status.wideCount_append h]

theorem decode_of_encode {r : Report} {b : Bytes} (h : r.encode = .ok b) (rest : Bytes) :
    decode (b ++ rest) = .ok (r, rest) := by
  obtain ⟨hcount, spelled, hwrite, rfl⟩ := encode_eq_ok_iff.mp h
  exact decode_octets hcount (Status.spellsAll_of_write hwrite).1 rest

/-- A report that was read is written in as many bytes, or fewer. -/
theorem encode_of_decode {r : Report} {b rest : Bytes} (h : decode b = .ok (r, rest)) :
    ∃ c, r.encode = .ok c ∧ b.length = c.length + r.wideBytes b + rest.length ∧
      (r.wideBytes b = 0 → b = c ++ rest) := by
  obtain ⟨hcount, spelled, hspelled, rfl⟩ := octets_of_decode h
  obtain ⟨spelled', hwrite, hlength, hsame⟩ := Status.write_of_spellsAll hspelled
  have hsymbols : (spelled'.map (·.1)).length = (spelled.map (·.1)).length := by
    rw [List.length_map, List.length_map, ← hspelled.length_eq,
      ← (Status.spellsAll_of_write hwrite).1.length_eq]
  rw [wideBytes_octets hspelled]
  refine ⟨_, encode_eq_ok_iff.mpr ⟨hcount, spelled', hwrite, rfl⟩, ?_, fun hzero => ?_⟩
  · simp only [octets, List.length_append, length_bytes, Status.length_pack, hsymbols, hlength]
    omega
  · rw [hsame hzero]

/-- A report that has a wire form. -/
structure IsWritable (r : Report) : Prop where
  count : r.packetCount ≤ maxPackets
  statuses : ∀ s ∈ r.statuses, s.IsWritable

theorem exists_encode_iff {r : Report} : (∃ b, r.encode = .ok b) ↔ r.IsWritable := by
  constructor
  · rintro ⟨b, h⟩
    obtain ⟨hcount, spelled, hwrite, -⟩ := encode_eq_ok_iff.mp h
    exact ⟨hcount, Status.exists_spellsAll_iff.mp ⟨spelled, (Status.spellsAll_of_write hwrite).1⟩⟩
  · intro h
    obtain ⟨spelled, hspelled⟩ := Status.exists_spellsAll_iff.mpr h.statuses
    obtain ⟨spelled', hwrite, -⟩ := Status.write_of_spellsAll hspelled
    exact ⟨_, encode_eq_ok_iff.mpr ⟨h.count, spelled', hwrite, rfl⟩⟩

end Report

namespace Feedback

namespace Body

theorem decode_of_encode {body : Body} {b : Bytes} (h : body.encode = .ok b) (rest : Bytes) :
    Body.decode body.tag (b ++ rest) = .ok (body, rest) := by
  cases body with
  | congestion report =>
    exact Guard.bind_eq_ok.mpr ⟨_, Report.decode_of_encode h rest, rfl⟩
  | nack sequences =>
    simp only [encode] at h
    split at h
    · cases h
    rename_i hcount
    cases h
    have hvalue : value (bytes 2 sequences.length) = sequences.length := by
      rw [value_bytes]
      exact Nat.mod_eq_of_lt (Nat.lt_succ_of_le (Nat.not_lt.mp hcount))
    have hword := Wire.split_append (length_bytes 2 sequences.length)
      (sequences.flatMap (bytes 4 ·.toNat) ++ rest)
    have hwords := Wire.split_append (length_flatMap_bytes 4 UInt32.toNat sequences) rest
    simp only [tag, Body.decode, List.append_assoc, hword, Guard.ok_bind, hvalue, hwords,
      u32s_bytes]
    rfl
  | keyframeRequest =>
    cases h
    rfl
  | receiverEstimate rate =>
    cases h
    have hword := Wire.split_append (length_bytes 8 rate.toNat) rest
    simp only [tag, Body.decode, hword, Guard.ok_bind, u64_bytes]
    rfl

/-- The bytes of a body that its shortest form saves. -/
def wideBytes : Body → Bytes → Nat
  | .congestion report, b => report.wideBytes b
  | _, _ => 0

theorem encode_of_decode {tag : UInt8} {body : Body} {b rest : Bytes}
    (h : Body.decode tag b = .ok (body, rest)) :
    tag = body.tag ∧ ∃ c, body.encode = .ok c ∧
      b.length = c.length + body.wideBytes b + rest.length ∧
      (body.wideBytes b = 0 → b = c ++ rest) := by
  unfold Body.decode at h
  split at h
  · simp only [Guard.bind_eq_ok] at h
    obtain ⟨⟨report, left⟩, hreport, h⟩ := h
    cases h
    exact ⟨rfl, Report.encode_of_decode hreport⟩
  · simp only [Guard.bind_eq_ok] at h
    obtain ⟨⟨count, left⟩, hword, ⟨sequences, left'⟩, hwords, h⟩ := h
    obtain ⟨hcount, rfl⟩ := Wire.split_eq_ok_iff.mp hword
    obtain ⟨hsequences, rfl⟩ := Wire.split_eq_ok_iff.mp hwords
    cases h
    have hlt := value_lt count
    rw [hcount] at hlt
    have hlength := length_u32s hsequences
    have hback : bytes 2 (value count) = count := hcount ▸ bytes_value_self count
    have hencode : Body.encode (.nack (u32s sequences)) = .ok (count ++ sequences) := by
      simp only [encode, hlength, hback, bytes_u32s hsequences]
      rw [if_neg]
      exact Nat.not_lt.mpr (Nat.le_of_lt_succ hlt)
    refine ⟨rfl, _, hencode, ?_, fun _ => (List.append_assoc ..).symm⟩
    simp only [List.length_append, wideBytes]
    omega
  · cases h
    exact ⟨rfl, [], rfl, by simp [wideBytes], fun _ => rfl⟩
  · simp only [Guard.bind_eq_ok] at h
    obtain ⟨⟨rate, left⟩, hword, h⟩ := h
    obtain ⟨hrate, rfl⟩ := Wire.split_eq_ok_iff.mp hword
    cases h
    have hencode : Body.encode (.receiverEstimate (.ofNat (value rate))) = .ok rate := by
      rw [encode, bytes_u64 hrate]
    exact ⟨rfl, _, hencode, by simp [wideBytes], fun _ => rfl⟩
  · cases h

/-- A body that has a wire form. -/
def IsWritable : Body → Prop
  | .congestion report => report.IsWritable
  | .nack sequences => sequences.length ≤ maxNack
  | .keyframeRequest | .receiverEstimate _ => True

theorem exists_encode_iff {body : Body} : (∃ b, body.encode = .ok b) ↔ body.IsWritable := by
  cases body with
  | congestion report => exact Report.exists_encode_iff
  | nack sequences =>
    simp only [encode, IsWritable]
    split
    · rename_i hlong
      simpa using hlong
    · rename_i hshort
      exact ⟨fun _ => Nat.not_lt.mp hshort, fun _ => ⟨_, rfl⟩⟩
  | keyframeRequest | receiverEstimate => exact ⟨fun _ => trivial, fun _ => ⟨_, rfl⟩⟩

end Body

theorem encode_eq_ok_iff {m : Feedback} {b : Bytes} :
    m.encode = .ok b ↔ ∃ body, m.body.encode = .ok body ∧
      [m.body.tag] ++ bytes 4 m.stream.sender.number.toNat ++ [m.stream.kind.code] ++ body = b := by
  simp only [encode, Guard.bind_eq_ok, Guard.pure_eq, Except.ok.injEq]

theorem decode_of_encode {m : Feedback} {b : Bytes} (h : m.encode = .ok b) : decode b = .ok m := by
  obtain ⟨body, hbody, rfl⟩ := encode_eq_ok_iff.mp h
  have hsender := u32_bytes m.stream.sender.number
  have hread := Body.decode_of_encode hbody []
  rw [List.append_nil] at hread
  simp only [bytes] at hsender
  simp only [bytes, List.cons_append, List.nil_append, decode, hsender, Kind.ofCode?_code, hread,
    Guard.ok_bind]
  rfl

/-- The bytes of a message that its shortest form saves. -/
def wideBytes (m : Feedback) (b : Bytes) : Nat := m.body.wideBytes (b.drop 6)

/-- A message that was read is written in as many bytes, or fewer. -/
theorem encode_of_decode {m : Feedback} {b : Bytes} (h : decode b = .ok m) :
    ∃ c, m.encode = .ok c ∧ b.length = c.length + m.wideBytes b ∧ (m.wideBytes b = 0 → c = b) := by
  unfold decode at h
  split at h
  case h_2 => cases h
  rename_i tag s₁ s₂ s₃ s₄ kind rest
  split at h
  case h_2 => cases h
  rename_i kind' hkind
  simp only [Guard.bind_eq_ok, Guard.unless_eq_ok] at h
  obtain ⟨⟨body, left⟩, hbody, hempty, h⟩ := h
  cases List.isEmpty_iff.mp hempty
  cases h
  obtain ⟨rfl, c, hencode, hlength, hsame⟩ := Body.encode_of_decode hbody
  refine ⟨_, encode_eq_ok_iff.mpr ⟨c, hencode, rfl⟩, ?_, fun hzero => ?_⟩
  · simp only [bytes_u32, List.length_append, List.length_cons, List.length_nil, wideBytes,
      List.drop_succ_cons, List.drop_zero, hlength]
    omega
  · rw [List.append_nil] at hsame
    rw [hsame hzero, bytes_u32, Kind.code_of_ofCode? hkind]
    rfl

/-- Reading undoes writing, and writing gives back what was read in its shortest form: only a delta
spelled with two bytes that fits in one makes a difference. -/
theorem encode_shortest :
    (∀ m : Feedback, ((∃ b, m.encode = .ok b) ↔ ∃ b, decode b = .ok m) ∧
      ((∃ b, m.encode = .ok b) ↔ m.body.IsWritable) ∧
      ∀ b, m.encode = .ok b → decode b = .ok m) ∧
    ∀ b m, decode b = .ok m → ∃ c, m.encode = .ok c ∧ b.length = c.length + m.wideBytes b ∧
      (m.wideBytes b = 0 → c = b) := by
  refine ⟨fun m => ⟨⟨?_, ?_⟩, ⟨?_, ?_⟩, fun b => decode_of_encode⟩, fun b m => encode_of_decode⟩
  · rintro ⟨b, h⟩
    exact ⟨b, decode_of_encode h⟩
  · rintro ⟨b, h⟩
    obtain ⟨c, hc, -⟩ := encode_of_decode h
    exact ⟨c, hc⟩
  · rintro ⟨b, h⟩
    obtain ⟨body, hbody, -⟩ := encode_eq_ok_iff.mp h
    exact Body.exists_encode_iff.mp ⟨body, hbody⟩
  · intro h
    obtain ⟨body, hbody⟩ := Body.exists_encode_iff.mpr h
    exact ⟨_, encode_eq_ok_iff.mpr ⟨body, hbody, rfl⟩⟩

/-- A report on five packets; the fourth is spelled with a byte too many. -/
theorem encode_shortest_five_packets :
    let m : Feedback :=
      { stream := ⟨⟨7⟩, .video⟩
        body := .congestion
          ⟨5, 1, [.received 1000, .lost, .received (-500), .received 2000, .received 0]⟩ }
    let b : Bytes :=
      [0, 0, 0, 0, 7, 1, 0, 0, 0, 5, 0, 0, 0, 5, 0, 0, 0, 1, 0x4A, 0x40, 4, 0xFF, 0xFE, 0, 8, 0]
    let c : Bytes :=
      [0, 0, 0, 0, 7, 1, 0, 0, 0, 5, 0, 0, 0, 5, 0, 0, 0, 1, 0x49, 0x40, 4, 0xFF, 0xFE, 8, 0]
    decode b = .ok m ∧ m.encode = .ok c ∧ decode c = .ok m ∧ m.body.IsWritable ∧
      m.wideBytes b = 1 ∧ m.wideBytes c = 0 := by
  intro m b c
  have hb : decode b = .ok m := Guard.eq_ok_of_toOption (by decide +kernel)
  have hc : m.encode = .ok c := Guard.eq_ok_of_toOption (by decide +kernel)
  obtain ⟨-, hwritable, hread⟩ := encode_shortest.1 m
  obtain ⟨c', hc', hlength, -⟩ := encode_shortest.2 b m hb
  cases hc.symm.trans hc'
  exact ⟨hb, hc, hread c hc, hwritable.mp ⟨c, hc⟩, Nat.add_left_cancel hlength.symm,
    by decide +kernel⟩

end Feedback

end MediaRelay
