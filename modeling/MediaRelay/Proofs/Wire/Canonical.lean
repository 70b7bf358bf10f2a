import MediaRelay.Proofs.Guard
import MediaRelay.Wire.Datagram
import MediaRelay.Wire.Word.Lemmas

/-!
The wire form of a datagram. Header, descriptor and datagram are read from exactly those bytes that
they are written as (`decode_eq_ok_iff` of each), so a value has at most one form and the bytes of a
value that was read can be had back.
-/

namespace MediaRelay

open Wire (Fault)
open Wire.Word

theorem Wire.split_eq_ok_iff {n : Nat} {b front rest : Bytes} :
    Wire.split n b = .ok (front, rest) ↔ front.length = n ∧ b = front ++ rest := by
  unfold Wire.split
  split
  · rename_i hshort
    simp only [reduceCtorEq, false_iff]
    rintro ⟨rfl, rfl⟩
    rw [List.length_append] at hshort
    omega
  · rename_i hlong
    simp only [Except.ok.injEq, Prod.mk.injEq]
    constructor
    · rintro ⟨rfl, rfl⟩
      exact ⟨List.length_take_of_le (Nat.not_lt.mp hlong), (List.take_append_drop n b).symm⟩
    · rintro ⟨rfl, rfl⟩
      exact ⟨List.take_left, List.drop_left⟩

theorem PacketType.code_of_ofCode? {b : UInt8} {t : PacketType} (h : ofCode? b = some t) :
    t.code = b := by
  unfold ofCode? at h
  split at h <;> cases h <;> rfl

theorem Codec.code_of_ofCode? {b : UInt8} {c : Codec} (h : ofCode? b = some c) : c.code = b := by
  unfold ofCode? at h
  split at h <;> cases h <;> rfl

namespace Header

theorem layerOfByte_isValid (b : UInt8) : (layerOfByte b).isValid :=
  forall_byte (P := fun b => (layerOfByte b).isValid) (by decide +kernel) b

theorem layerByte_layerOfByte (b : UInt8) : layerByte (layerOfByte b) = b :=
  forall_byte (P := fun b => layerByte (layerOfByte b) = b) (by decide +kernel) b

theorem layerOfByte_layerByte {l : Layer} (h : l.isValid) : layerOfByte (layerByte l) = l := by
  obtain ⟨s, t⟩ := l
  have hall : ∀ s t : Fin 16,
      layerOfByte (layerByte ⟨.ofNat s, .ofNat t⟩) = ⟨.ofNat s, .ofNat t⟩ := by decide +kernel
  simp only [Layer.isValid, Bool.and_eq_true, decide_eq_true_eq, UInt8.le_iff_toNat_le] at h
  have hs : s.toNat < 16 := Nat.lt_succ_of_le h.1
  have ht : t.toNat < 16 := Nat.lt_succ_of_le h.2
  simpa only [UInt8.ofNat_toNat] using hall ⟨s.toNat, hs⟩ ⟨t.toNat, ht⟩

/-- The last byte has one bit. -/
theorem dtxByte_of_byte {b : UInt8} (h : b &&& 0x7F = 0) : (if b == 0x80 then 0x80 else 0) = b :=
  forall_byte (P := fun b => b &&& 0x7F = 0 → (if b == 0x80 then 0x80 else 0) = b)
    (by decide +kernel) b h

theorem dtxByte_fields (dtx : Bool) :
    ((if dtx then 0x80 else 0) &&& 0x7F : UInt8) = 0 ∧
      ((if dtx then 0x80 else 0 : UInt8) == 0x80) = dtx := by
  cases dtx <;> decide

/-- The bytes that stand for a header. -/
def octets (h : Header) : Bytes :=
  [h.version, h.packetType.code, h.codec.code, h.flags.bits] ++
    bytes 4 h.room.number.toNat ++ bytes 4 h.sender.number.toNat ++
    bytes 4 h.sequence.toNat ++ bytes 4 h.timestamp.toNat ++
    [layerByte h.layer, if h.dtx then 0x80 else 0]

theorem encode_eq_ok_iff {h : Header} {b : Bytes} :
    h.encode = .ok b ↔ h.version = protocolVersion ∧ h.layer.isValid ∧ h.octets = b := by
  unfold encode
  by_cases hversion : h.version = protocolVersion
  · cases hlayer : h.layer.isValid with
    | false => simp [hversion]
    | true => simp [hversion, octets]
  · simp [hversion]

theorem decode_octets {h : Header} (hversion : h.version = protocolVersion)
    (hflags : h.flags.isDefined) (hlayer : h.layer.isValid) (rest : Bytes) :
    decode (h.octets ++ rest) = .ok (h, rest) := by
  have hroom := u32_bytes h.room.number
  have hsender := u32_bytes h.sender.number
  have hsequence := u32_bytes h.sequence
  have htimestamp := u32_bytes h.timestamp
  obtain ⟨hreserved, hdtx⟩ := dtxByte_fields h.dtx
  -- the pattern of `decode` needs the words byte by byte
  simp only [bytes] at hroom hsender hsequence htimestamp
  simp only [octets, bytes, List.cons_append, List.nil_append, decode, hversion,
    beq_self_eq_true, if_true, PacketType.ofCode?_code, Codec.ofCode?_code, hflags, hreserved,
    hdtx, hroom, hsender, hsequence, htimestamp, layerOfByte_layerByte hlayer]
  rw [← hversion]
  rfl

theorem octets_of_decode {b rest : Bytes} {h : Header} (hd : decode b = .ok (h, rest)) :
    h.version = protocolVersion ∧ h.flags.isDefined ∧ h.layer.isValid ∧ b = h.octets ++ rest := by
  unfold decode at hd
  split at hd
  · rename_i version type codec flags r₁ r₂ r₃ r₄ s₁ s₂ s₃ s₄ q₁ q₂ q₃ q₄ t₁ t₂ t₃ t₄ layer dtx _
    obtain ⟨hversion, hd⟩ := Guard.unless_eq_ok.mp hd
    split at hd
    case h_2 => cases hd
    rename_i packetType htype
    split at hd
    case h_2 => cases hd
    rename_i codec' hcodec
    simp only [Guard.unless_eq_ok, beq_iff_eq] at hversion hd
    obtain ⟨hflags, hdtx, hd⟩ := hd
    cases hd
    refine ⟨hversion, hflags, layerOfByte_isValid layer, ?_⟩
    simp only [octets, PacketType.code_of_ofCode? htype, Codec.code_of_ofCode? hcodec,
      layerByte_layerOfByte, dtxByte_of_byte hdtx, bytes_u32]
    rfl
  · cases hd

/-- Flags are the one field that writing does not check. -/
theorem decode_eq_ok_iff {b rest : Bytes} {h : Header} :
    decode b = .ok (h, rest) ↔
      h.flags.isDefined ∧ ∃ front, h.encode = .ok front ∧ b = front ++ rest := by
  constructor
  · intro hd
    obtain ⟨hversion, hflags, hlayer, rfl⟩ := octets_of_decode hd
    exact ⟨hflags, _, encode_eq_ok_iff.mpr ⟨hversion, hlayer, rfl⟩, rfl⟩
  · rintro ⟨hflags, front, hencode, rfl⟩
    obtain ⟨hversion, hlayer, rfl⟩ := encode_eq_ok_iff.mp hencode
    exact decode_octets hversion hflags hlayer rest

theorem length_of_encode {h : Header} {b : Bytes} (he : h.encode = .ok b) : b.length = size := by
  obtain ⟨-, -, rfl⟩ := encode_eq_ok_iff.mp he
  simp [octets, size]

end Header

namespace Descriptor

/-- The bytes that stand for a descriptor. -/
def octets (d : Descriptor) : Bytes :=
  let diffs := d.customDiffs.getD []
  [d.headByte] ++ bytes 2 d.frameNumber.toNat ++
    [d.decodeTargets, (if d.customDiffs.isSome then 0x80 else 0) ||| .ofNat diffs.length] ++
    diffs.flatMap (bytes 2 ·.toNat)

structure IsWritable (d : Descriptor) : Prop where
  template : d.templateId ≤ maxTemplateId
  count : (d.customDiffs.getD []).length ≤ maxDiffs
  nonzero : 0 ∉ d.customDiffs.getD []

theorem encode_eq_ok_iff {d : Descriptor} {b : Bytes} :
    d.encode = .ok b ↔ d.IsWritable ∧ d.octets = b := by
  unfold encode
  by_cases htemplate : d.templateId ≤ maxTemplateId
  case neg =>
    simp only [gt_iff_lt, UInt8.not_le.mp htemplate, if_true, reduceCtorEq, false_iff]
    exact fun h => htemplate h.1.template
  by_cases hcount : (d.customDiffs.getD []).length ≤ maxDiffs
  case neg =>
    simp only [gt_iff_lt, UInt8.not_lt.mpr htemplate, if_false, Nat.not_le.mp hcount, if_true,
      reduceCtorEq, false_iff]
    exact fun h => hcount h.1.count
  by_cases hzero : 0 ∈ d.customDiffs.getD []
  · simp only [gt_iff_lt, UInt8.not_lt.mpr htemplate, if_false, Nat.not_lt.mpr hcount,
      List.contains_iff_mem, hzero, if_true, reduceCtorEq, false_iff]
    exact fun h => h.1.nonzero hzero
  · simp only [gt_iff_lt, UInt8.not_lt.mpr htemplate, if_false, Nat.not_lt.mpr hcount,
      List.contains_iff_mem, hzero]
    exact ⟨fun h => ⟨⟨htemplate, hcount, hzero⟩, Except.ok.inj h⟩, fun h => congrArg _ h.2⟩

/-- Two marks and the template in one byte. -/
theorem headByte_fields {d : Descriptor} (h : d.templateId ≤ maxTemplateId) :
    (d.headByte &&& 0x80 != 0) = d.startOfFrame ∧ (d.headByte &&& 0x40 != 0) = d.endOfFrame ∧
      d.headByte &&& 0x3F = d.templateId := by
  have hall : ∀ (s e : Bool) (t : Fin 64),
      let b : UInt8 := (if s then 0x80 else 0) ||| (if e then 0x40 else 0) ||| .ofNat t
      (b &&& 0x80 != 0) = s ∧ (b &&& 0x40 != 0) = e ∧ b &&& 0x3F = .ofNat t := by decide +kernel
  have ht : d.templateId.toNat < 64 := Nat.lt_succ_of_le (UInt8.le_iff_toNat_le.mp h)
  simpa only [headByte, UInt8.ofNat_toNat] using
    hall d.startOfFrame d.endOfFrame ⟨d.templateId.toNat, ht⟩

theorem headByte_of_byte (b : UInt8) :
    (if b &&& 0x80 != 0 then 0x80 else 0) ||| (if b &&& 0x40 != 0 then 0x40 else 0) |||
      b &&& 0x3F = b ∧ b &&& 0x3F ≤ maxTemplateId :=
  forall_byte (P := fun b => (if b &&& 0x80 != 0 then 0x80 else 0) |||
    (if b &&& 0x40 != 0 then 0x40 else 0) ||| b &&& 0x3F = b ∧ b &&& 0x3F ≤ maxTemplateId)
    (by decide +kernel) b

/-- A mark and the number of distances in one byte, with two bits between them unused. -/
theorem countByte_fields (custom : Bool) {n : Nat} (h : n ≤ maxDiffs) :
    let b : UInt8 := (if custom then 0x80 else 0) ||| .ofNat n
    (b &&& 0x80 != 0) = custom ∧ (b &&& 0x1F).toNat = n ∧ b &&& 0x60 = 0 := by
  have hall : ∀ (custom : Bool) (n : Fin 14),
      let b : UInt8 := (if custom then 0x80 else 0) ||| .ofNat n
      (b &&& 0x80 != 0) = custom ∧ (b &&& 0x1F).toNat = n ∧ b &&& 0x60 = 0 := by decide +kernel
  exact hall custom ⟨n, Nat.lt_succ_of_le h⟩

theorem countByte_of_byte {b : UInt8} (h : b &&& 0x60 = 0) :
    (if b &&& 0x80 != 0 then 0x80 else 0) ||| .ofNat (b &&& 0x1F).toNat = b :=
  forall_byte (P := fun b => b &&& 0x60 = 0 →
    (if b &&& 0x80 != 0 then 0x80 else 0) ||| .ofNat (b &&& 0x1F).toNat = b) (by decide +kernel) b h

theorem decode_octets {d : Descriptor} (h : d.IsWritable) (rest : Bytes) :
    decode (d.octets ++ rest) = .ok (d, rest) := by
  obtain ⟨hstart, hend, htemplate⟩ := headByte_fields h.template
  obtain ⟨hcustom, hcount, hreserved⟩ := countByte_fields d.customDiffs.isSome h.count
  have hnumber := u16_bytes d.frameNumber
  have hread := u16s_bytes (d.customDiffs.getD [])
  have hsplit : Wire.split (2 * (d.customDiffs.getD []).length)
      ((d.customDiffs.getD []).flatMap (bytes 2 ·.toNat) ++ rest) =
        .ok ((d.customDiffs.getD []).flatMap (bytes 2 ·.toNat), rest) :=
    Wire.split_eq_ok_iff.mpr ⟨length_flatMap_bytes _ _ _, rfl⟩
  have hunmarked : (!d.customDiffs.isSome && (d.customDiffs.getD []).length != 0) = false := by
    cases d.customDiffs <;> simp
  have hdiffs : (if d.customDiffs.isSome then some (d.customDiffs.getD []) else none) =
      d.customDiffs := by
    cases d.customDiffs <;> rfl
  have hzero : (d.customDiffs.getD []).contains 0 = false := by simpa using h.nonzero
  -- the pattern of `decode` needs the words byte by byte
  simp only [bytes] at hnumber hread hsplit
  simp only [octets, bytes, List.cons_append, List.nil_append, decode, hcustom, hcount, hreserved,
    hstart, hend, htemplate, hnumber, hunmarked, Nat.not_lt.mpr h.count, beq_self_eq_true, if_true,
    if_false, Bool.false_eq_true]
  rw [hsplit]
  simp only [Guard.pure_eq, Guard.ok_bind]
  rw [hread, hdiffs, hzero]
  rfl

theorem octets_of_decode {b rest : Bytes} {d : Descriptor} (hd : decode b = .ok (d, rest)) :
    d.IsWritable ∧ b = d.octets ++ rest := by
  unfold decode at hd
  split at hd
  · rename_i head n₁ n₂ targets dependencies tail
    simp only [Guard.unless_eq_ok, Guard.when_eq_ok, Guard.bind_eq_ok, beq_iff_eq] at hd
    obtain ⟨hreserved, hunmarked, hcount, ⟨diffs, left⟩, hsplit, hzero, hd⟩ := hd
    obtain ⟨hlength, rfl⟩ := Wire.split_eq_ok_iff.mp hsplit
    cases hd
    obtain ⟨hhead, htemplate⟩ := headByte_of_byte head
    have hdiffs : (if dependencies &&& 0x80 != 0 then some (u16s diffs) else none).getD [] =
        u16s diffs := by
      by_cases hcustom : dependencies &&& 0x80 = 0
      · have hempty : diffs.length = 0 := by simp_all
        simp [hcustom, List.eq_nil_of_length_eq_zero hempty, u16s]
      · simp [hcustom]
    have hmark : (if dependencies &&& 0x80 != 0 then some (u16s diffs) else none).isSome =
        (dependencies &&& 0x80 != 0) := by
      by_cases hcustom : dependencies &&& 0x80 = 0 <;> simp [hcustom]
    refine ⟨⟨htemplate, ?_, ?_⟩, ?_⟩
    · simpa only [hdiffs, length_u16s hlength] using Nat.not_lt.mp hcount
    · simpa only [hdiffs, List.contains_iff_mem] using hzero
    · simp only [octets, headByte, hdiffs, hmark, hhead, length_u16s hlength, bytes_u16s hlength,
        bytes_u16, countByte_of_byte hreserved]
      rfl
  · cases hd

theorem decode_eq_ok_iff {b rest : Bytes} {d : Descriptor} :
    decode b = .ok (d, rest) ↔ ∃ front, d.encode = .ok front ∧ b = front ++ rest := by
  constructor
  · intro hd
    obtain ⟨hwritable, rfl⟩ := octets_of_decode hd
    exact ⟨_, encode_eq_ok_iff.mpr ⟨hwritable, rfl⟩, rfl⟩
  · rintro ⟨front, hencode, rfl⟩
    obtain ⟨hwritable, rfl⟩ := encode_eq_ok_iff.mp hencode
    exact decode_octets hwritable rest

theorem length_of_encode {d : Descriptor} {b : Bytes} (h : d.encode = .ok b) :
    b.length = d.encodedSize := by
  obtain ⟨-, rfl⟩ := encode_eq_ok_iff.mp h
  simp only [octets, encodedSize, fixedSize, List.length_append, List.length_cons, List.length_nil,
    length_bytes, length_flatMap_bytes]

end Descriptor

namespace Datagram

/-- The bytes of the descriptor, none if there is none. -/
def descriptorBytes (d : Datagram) : Except Fault Bytes := d.descriptor.elim (.ok []) (·.encode)

/-- A datagram is written as its header, its descriptor and its payload, one after another. -/
theorem encode_eq_ok_iff {d : Datagram} {b : Bytes} :
    d.encode = .ok b ↔ d.header.flags.hasDescriptor = d.descriptor.isSome ∧
      (d.descriptor.isSome → d.header.packetType.allowsDescriptor) ∧
      ∃ front middle, d.header.encode = .ok front ∧ d.descriptorBytes = .ok middle ∧
        b = front ++ middle ++ d.payload := by
  unfold encode descriptorBytes
  simp only [Guard.when_eq_ok, Guard.bind_eq_ok, bne_iff_ne, ne_eq, not_not, Bool.and_eq_true,
    Bool.not_eq_true', not_and, Bool.not_eq_false]
  refine and_congr_right fun _ => and_congr_right fun _ => exists_congr fun front => ?_
  cases d.descriptor with
  | none =>
    constructor
    · rintro ⟨hfront, h⟩
      cases h
      exact ⟨[], hfront, rfl, rfl⟩
    · rintro ⟨middle, hfront, hmiddle, rfl⟩
      cases hmiddle
      exact ⟨hfront, rfl⟩
  | some descriptor =>
    simp only [Guard.bind_eq_ok]
    constructor
    · rintro ⟨hfront, middle, hmiddle, h⟩
      cases h
      exact ⟨middle, hfront, hmiddle, rfl⟩
    · rintro ⟨middle, hfront, hmiddle, rfl⟩
      exact ⟨hfront, middle, hmiddle, rfl⟩

theorem decode_eq_ok_iff {b : Bytes} {d : Datagram} :
    decode b = .ok d ↔ d.header.flags.isDefined ∧ d.encode = .ok b := by
  obtain ⟨header, descriptor, payload⟩ := d
  rw [encode_eq_ok_iff]
  unfold decode
  simp only [Guard.bind_eq_ok]
  constructor
  · rintro ⟨⟨header', rest⟩, hheader, hd⟩
    obtain ⟨hflags, front, hfront, rfl⟩ := Header.decode_eq_ok_iff.mp hheader
    split at hd
    · rename_i hannounced
      simp only [Guard.unless_eq_ok, Guard.bind_eq_ok] at hd
      obtain ⟨hallowed, ⟨descriptor', payload'⟩, hdescriptor, hd⟩ := hd
      obtain ⟨middle, hmiddle, rfl⟩ := Descriptor.decode_eq_ok_iff.mp hdescriptor
      cases hd
      exact ⟨hflags, hannounced, fun _ => hallowed, front, middle, hfront, hmiddle, by simp⟩
    · rename_i hannounced
      cases hd
      exact ⟨hflags, by simpa using hannounced, nofun, front, [], hfront, rfl, by simp⟩
  · rintro ⟨hflags, hannounced, hallowed, front, middle, hfront, hmiddle, rfl⟩
    have hheader := Header.decode_eq_ok_iff.mpr
      ⟨hflags, front, hfront, List.append_assoc front middle payload⟩
    refine ⟨_, hheader, ?_⟩
    simp only [hannounced]
    cases descriptor with
    | none =>
      cases hmiddle
      rfl
    | some descriptor =>
      have hread : Descriptor.decode (middle ++ payload) = .ok (descriptor, payload) :=
        Descriptor.decode_eq_ok_iff.mpr ⟨middle, hmiddle, rfl⟩
      simp only [Option.isSome_some, if_true, Guard.unless_eq_ok, Guard.bind_eq_ok]
      exact ⟨hallowed rfl, (descriptor, payload), hread, rfl⟩

theorem length_of_encode {d : Datagram} {b : Bytes} (h : d.encode = .ok b) :
    b.length = d.encodedSize := by
  obtain ⟨-, -, front, middle, hfront, hmiddle, rfl⟩ := encode_eq_ok_iff.mp h
  have hsize : middle.length = (d.descriptor.map Descriptor.encodedSize).getD 0 := by
    unfold descriptorBytes at hmiddle
    cases hd : d.descriptor with
    | none =>
      rw [hd] at hmiddle
      cases hmiddle
      rfl
    | some descriptor =>
      rw [hd] at hmiddle
      exact Descriptor.length_of_encode hmiddle
  rw [List.length_append, List.length_append, Header.length_of_encode hfront, hsize, encodedSize]

/-- A datagram that has a wire form. -/
structure IsWritable (d : Datagram) : Prop where
  version : d.header.version = protocolVersion
  layer : d.header.layer.isValid
  announced : d.header.flags.hasDescriptor = d.descriptor.isSome
  allowed : d.descriptor.isSome → d.header.packetType.allowsDescriptor
  descriptor : ∀ descriptor, d.descriptor = some descriptor → descriptor.IsWritable

theorem exists_encode_iff {d : Datagram} : (∃ b, d.encode = .ok b) ↔ d.IsWritable := by
  constructor
  · rintro ⟨b, h⟩
    obtain ⟨hannounced, hallowed, front, middle, hfront, hmiddle, -⟩ := encode_eq_ok_iff.mp h
    obtain ⟨hversion, hlayer, -⟩ := Header.encode_eq_ok_iff.mp hfront
    refine ⟨hversion, hlayer, hannounced, hallowed, fun descriptor hd => ?_⟩
    rw [descriptorBytes, hd] at hmiddle
    exact (Descriptor.encode_eq_ok_iff.mp hmiddle).1
  · intro h
    have hheader := Header.encode_eq_ok_iff.mpr ⟨h.version, h.layer, rfl⟩
    have hmiddle : ∃ middle, d.descriptorBytes = .ok middle := by
      unfold descriptorBytes
      cases hd : d.descriptor with
      | none => exact ⟨_, rfl⟩
      | some descriptor =>
        exact ⟨_, Descriptor.encode_eq_ok_iff.mpr ⟨h.descriptor descriptor hd, rfl⟩⟩
    obtain ⟨middle, hmiddle⟩ := hmiddle
    exact ⟨_, encode_eq_ok_iff.mpr ⟨h.announced, h.allowed, _, middle, hheader, hmiddle, rfl⟩⟩

theorem decode_version {b : Bytes} {d : Datagram} (h : decode b = .ok d) :
    d.header.version = protocolVersion :=
  (exists_encode_iff.mp ⟨b, (decode_eq_ok_iff.mp h).2⟩).version

/-- Reading and writing are inverse to each other, and fail on the same datagrams. -/
theorem decode_encode_inverse :
    (∀ b d, decode b = .ok d → d.encode = .ok b ∧ d.encodedSize = b.length) ∧
      ∀ d : Datagram, d.header.flags.isDefined →
        ((∃ b, d.encode = .ok b) ↔ ∃ b, decode b = .ok d) ∧
        ((∃ b, d.encode = .ok b) ↔ d.IsWritable) ∧
        ∀ b, d.encode = .ok b → decode b = .ok d := by
  refine ⟨fun b d hd => ?_, fun d hflags => ⟨?_, exists_encode_iff, fun b hb => ?_⟩⟩
  · have hencode := (decode_eq_ok_iff.mp hd).2
    exact ⟨hencode, (length_of_encode hencode).symm⟩
  · exact exists_congr fun b => ⟨fun hb => decode_eq_ok_iff.mpr ⟨hflags, hb⟩,
      fun hb => (decode_eq_ok_iff.mp hb).2⟩
  · exact decode_eq_ok_iff.mpr ⟨hflags, hb⟩

/-- Video of layer S1T0 that refers one and three frames back, with a payload of one byte. -/
theorem decode_encode_inverse_two_references :
    let d : Datagram :=
      { header := ⟨protocolVersion, .video, .vp9, ⟨0x10⟩, ⟨7⟩, ⟨1⟩, 258, 90000, ⟨1, 0⟩, false⟩
        descriptor := some ⟨true, true, 5, 260, 3, some [1, 3]⟩
        payload := [42] }
    let b : Bytes :=
      [1, 1, 3, 0x10, 0, 0, 0, 7, 0, 0, 0, 1, 0, 0, 1, 2, 0, 1, 0x5F, 0x90, 0x10, 0,
        0xC5, 1, 4, 3, 0x82, 0, 1, 0, 3, 42]
    decode b = .ok d ∧ d.header.flags.isDefined ∧ d.encode = .ok b ∧ d.encodedSize = b.length ∧
      d.IsWritable := by
  intro d b
  have hd : decode b = .ok d := Guard.eq_ok_of_toOption (by decide +kernel)
  have hflags : d.header.flags.isDefined := by decide
  obtain ⟨hencode, hsize⟩ := decode_encode_inverse.1 b d hd
  exact ⟨hd, hflags, hencode, hsize, ((decode_encode_inverse.2 d hflags).2.1).mp ⟨b, hencode⟩⟩

end Datagram

end MediaRelay
