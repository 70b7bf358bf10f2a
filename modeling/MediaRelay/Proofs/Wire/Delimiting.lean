import MediaRelay.Proofs.Wire.Messages

/-!
Messages that hold their own end. A reader is self-delimiting if the bytes it takes are the same
whatever follows them, and if any part of them is refused as truncated. The readers of feedback are
put together from such readers, so a message that is cut short is truncated and one with bytes after
it has trailing bytes (`Feedback.decode_delimits`).
-/

namespace MediaRelay

open Wire (Fault)
open Wire.Word

namespace Wire

variable {α β : Type}

/-- Takes a value off the front of the bytes and hands on the rest. -/
abbrev Reader (α : Type) := Bytes → Except Fault (α × Bytes)

/-- Refused for want of bytes. -/
def IsTruncated (x : Except Fault α) : Prop :=
  ∃ needed available, x = .error (.truncated needed available) ∧ available < needed

/-- The value is read from exactly these bytes: what follows is left alone, and with fewer of them
there are too few. -/
structure Takes (read : Reader α) (front : Bytes) (a : α) : Prop where
  whole : ∀ rest, read (front ++ rest) = .ok (a, rest)
  cut : ∀ n < front.length, IsTruncated (read (front.take n))

/-- Whatever is read, is read from a front that holds its own end. -/
def SelfDelimiting (read : Reader α) : Prop :=
  ∀ b a rest, read b = .ok (a, rest) → ∃ front, b = front ++ rest ∧ Takes read front a

theorem IsTruncated.bind {x : Except Fault α} (h : IsTruncated x) (f : α → Except Fault β) :
    IsTruncated (x >>= f) := by
  obtain ⟨needed, available, rfl, hlt⟩ := h
  exact ⟨needed, available, rfl, hlt⟩

/-- One reader after the other takes the bytes of both. A cut falls into the bytes of the first, or
leaves those whole and falls into the bytes of the second. -/
theorem Takes.bind {f : Reader α} {g : α × Bytes → Except Fault (β × Bytes)} {front back : Bytes}
    {a : α} {c : β} (hf : Takes f front a) (hg : Takes (fun b => g (a, b)) back c) :
    Takes (fun b => f b >>= g) (front ++ back) c := by
  refine ⟨fun rest => ?_, fun n hn => ?_⟩
  · rw [List.append_assoc, hf.whole, Guard.ok_bind]
    exact hg.whole rest
  · rw [List.length_append] at hn
    rw [List.take_append]
    by_cases hfront : n < front.length
    · rw [Nat.sub_eq_zero_of_le (Nat.le_of_lt hfront), List.take_zero, List.append_nil]
      exact (hf.cut n hfront).bind g
    · rw [List.take_of_length_le (Nat.not_lt.mp hfront), hf.whole, Guard.ok_bind]
      exact hg.cut _ (by omega)

namespace SelfDelimiting

theorem pure (a : α) : SelfDelimiting fun b => .ok (a, b) := by
  intro b a' rest h
  cases h
  exact ⟨[], rfl, fun _ => rfl, nofun⟩

theorem bind {f : Reader α} {g : α × Bytes → Except Fault (β × Bytes)} (hf : SelfDelimiting f)
    (hg : ∀ a b rest, f b = .ok (a, rest) → SelfDelimiting fun b => g (a, b)) :
    SelfDelimiting fun b => f b >>= g := by
  intro b c rest h
  obtain ⟨⟨a, left⟩, hread, h⟩ := Guard.bind_eq_ok.mp h
  obtain ⟨back, rfl, htakes'⟩ := hg a b left hread left c rest h
  obtain ⟨front, rfl, htakes⟩ := hf b a (back ++ rest) hread
  exact ⟨front ++ back, (List.append_assoc ..).symm, htakes.bind htakes'⟩

theorem map {f : Reader α} (hf : SelfDelimiting f) (g : α → β) :
    SelfDelimiting fun b => f b >>= fun x => .ok (g x.1, x.2) :=
  hf.bind fun a _ _ _ => pure (g a)

theorem of_when {p : Prop} [Decidable p] {e : Fault} {f : β → Reader α} {g : Reader α}
    (hg : SelfDelimiting g) :
    SelfDelimiting fun b => if p then throw e >>= fun x => f x b else g b := by
  by_cases hp : p
  · simp only [hp, if_true]
    exact nofun
  · simpa only [hp, if_false] using hg

theorem of_unless {p : Prop} [Decidable p] {e : Fault} {f : β → Reader α} {g : Reader α}
    (hg : SelfDelimiting g) :
    SelfDelimiting fun b => if p then g b else throw e >>= fun x => f x b := by
  by_cases hp : p
  · simpa only [hp, if_true] using hg
  · simp only [hp, if_false]
    exact nofun

theorem split (n : Nat) : SelfDelimiting (Wire.split n) := by
  intro b front rest h
  obtain ⟨rfl, rfl⟩ := Wire.split_eq_ok_iff.mp h
  refine ⟨front, rfl, Wire.split_append rfl, fun n hn => ⟨_, _, if_pos ?_, ?_⟩⟩
  all_goals
    rw [List.length_take_of_le (Nat.le_of_lt hn)]
    exact hn

/-- A reader that needs some bytes to begin with, and goes on from those in a way that is
self-delimiting. -/
theorem of_head {read : Reader α} (n : Nat)
    (hshort : ∀ b, b.length < n → read b = .error (.truncated n b.length))
    (hbody : ∀ head, head.length = n → SelfDelimiting fun rest => read (head ++ rest)) :
    SelfDelimiting read := by
  have hread : read = fun b => Wire.split n b >>= fun x => read (x.1 ++ x.2) := by
    funext b
    by_cases hb : b.length < n
    · rw [hshort b hb, Wire.split, if_pos hb]
      rfl
    · rw [Wire.split, if_neg hb, Guard.ok_bind, List.take_append_drop]
  rw [hread]
  exact (split n).bind fun head _ _ hsplit => hbody head (Wire.split_eq_ok_iff.mp hsplit).1

end SelfDelimiting

end Wire

open Wire (SelfDelimiting IsTruncated)

namespace Status

theorem read_selfDelimiting (symbol : Nat) : SelfDelimiting (read symbol) := by
  match symbol with
  | 0 => exact .pure Status.lost
  | 1 => exact (SelfDelimiting.split 1).map fun delta => received (value delta * unit)
  | 2 => exact (SelfDelimiting.split 2).map fun delta => received (signed16 (value delta) * unit)
  | _ + 3 => exact nofun

theorem readAll_selfDelimiting (symbols : List Nat) : SelfDelimiting (readAll symbols) := by
  induction symbols with
  | nil => exact .pure []
  | cons symbol symbols ih =>
    exact (read_selfDelimiting symbol).bind fun status _ _ _ => ih.map (status :: ·)

end Status

namespace Report

theorem decode_selfDelimiting : SelfDelimiting decode := by
  refine .of_head 12 (fun b hb => ?_) fun head hhead => ?_
  · unfold decode
    split
    · simp only [List.length_cons] at hb
      omega
    · rfl
  match head, hhead with
  | [b₁, b₂, b₃, b₄, n₁, n₂, n₃, n₄, m₁, m₂, m₃, m₄], _ =>
    exact .of_when <| (SelfDelimiting.split _).bind fun bitmap _ _ _ =>
      .of_unless <| (Status.readAll_selfDelimiting _).bind fun statuses _ _ _ => .pure _

end Report

namespace Feedback

theorem Body.decode_selfDelimiting (tag : UInt8) : SelfDelimiting (Body.decode tag) := by
  unfold Body.decode
  split
  · exact Report.decode_selfDelimiting.bind fun report _ _ _ => .pure _
  · exact (SelfDelimiting.split 2).bind fun count _ _ _ =>
      (SelfDelimiting.split _).bind fun sequences _ _ _ => .pure _
  · exact .pure _
  · exact (SelfDelimiting.split 8).bind fun rate _ _ _ => .pure _
  · exact nofun

theorem decode_of_length_lt {b : Bytes} (h : b.length < 6) :
    decode b = .error (.truncated 6 b.length) := by
  unfold decode
  split
  · simp only [List.length_cons] at h
    omega
  · rfl

/-- A message fills its bytes: the body is read from all of those behind the head. -/
theorem takes_of_decode {b : Bytes} {m : Feedback} (h : decode b = .ok m) :
    ∃ tag s₁ s₂ s₃ s₄ kind kind' body, b = tag :: s₁ :: s₂ :: s₃ :: s₄ :: kind :: body ∧
      Kind.ofCode? kind = some kind' ∧ Wire.Takes (Body.decode tag) body m.body := by
  unfold decode at h
  split at h
  case h_2 => cases h
  rename_i tag s₁ s₂ s₃ s₄ kind rest
  split at h
  case h_2 => cases h
  rename_i kind' hkind
  simp only [Guard.bind_eq_ok, Guard.unless_eq_ok] at h
  obtain ⟨⟨body, left⟩, hbody, hempty, h⟩ := h
  cases List.isEmpty_iff.mp hempty
  cases h
  obtain ⟨front, rfl, htakes⟩ := Body.decode_selfDelimiting tag rest body [] hbody
  exact ⟨tag, s₁, s₂, s₃, s₄, kind, kind', _, rfl, hkind, by rwa [List.append_nil]⟩

theorem decode_take {b : Bytes} {m : Feedback} (h : decode b = .ok m) {n : Nat}
    (hn : n < b.length) : IsTruncated (decode (b.take n)) := by
  by_cases hhead : n < 6
  · have hlength : (b.take n).length = n := List.length_take_of_le (Nat.le_of_lt hn)
    have hshort := decode_of_length_lt (hlength.symm ▸ hhead : (b.take n).length < 6)
    exact ⟨6, n, by rw [hshort, hlength], hhead⟩
  · obtain ⟨tag, s₁, s₂, s₃, s₄, kind, kind', body, rfl, hkind, htakes⟩ := takes_of_decode h
    obtain ⟨k, rfl⟩ := Nat.exists_eq_add_of_le' (Nat.not_lt.mp hhead)
    have hcut := htakes.cut k (by simpa using hn)
    simp only [List.take_succ_cons, decode, hkind]
    exact hcut.bind _

theorem decode_append {b : Bytes} {m : Feedback} (h : decode b = .ok m) {more : Bytes}
    (hmore : more ≠ []) : decode (b ++ more) = .error (.trailingBytes more.length) := by
  obtain ⟨tag, s₁, s₂, s₃, s₄, kind, kind', body, rfl, hkind, htakes⟩ := takes_of_decode h
  have hempty : more.isEmpty = false := by simpa using hmore
  simp only [List.cons_append, decode, hkind, htakes.whole, Guard.ok_bind, hempty]
  rfl

/-- A message holds its own end: a part of it is truncated, and bytes after it are trailing. So no
message begins with another one. -/
theorem decode_delimits {b : Bytes} {m : Feedback} (h : decode b = .ok m) :
    (∀ part, part <+: b → part ≠ b → IsTruncated (decode part)) ∧
      (∀ more, more ≠ [] → decode (b ++ more) = .error (.trailingBytes more.length)) ∧
      ∀ b' m', decode b' = .ok m' → b <+: b' → b' = b := by
  refine ⟨fun part hpart hne => ?_, fun more => decode_append h, ?_⟩
  · have hlt : part.length < b.length :=
      Nat.lt_of_le_of_ne hpart.length_le fun heq => hne (hpart.eq_of_length heq)
    rw [List.prefix_iff_eq_take.mp hpart]
    exact decode_take h hlt
  · rintro _ m' h' ⟨more, rfl⟩
    by_cases hmore : more = []
    · rw [hmore, List.append_nil]
    · rw [decode_append h hmore] at h'
      cases h'

/-- A report on three packets, of which the last needs two bytes, without its last byte, and with
two bytes more. -/
theorem decode_delimits_report :
    let m : Feedback :=
      { stream := ⟨⟨3⟩, .video⟩
        body := .congestion ⟨100, 5, [.received 500, .lost, .received (-250)]⟩ }
    let b : Bytes :=
      [0, 0, 0, 0, 3, 1, 0, 0, 0, 100, 0, 0, 0, 3, 0, 0, 0, 5, 0x48, 2, 0xFF, 0xFF]
    decode b = .ok m ∧ b.dropLast <+: b ∧ b.dropLast ≠ b ∧ IsTruncated (decode b.dropLast) ∧
      decode (b ++ [0, 0]) = .error (.trailingBytes 2) := by
  intro m b
  have hb : decode b = .ok m := Guard.eq_ok_of_toOption (by decide +kernel)
  have hne : b.dropLast ≠ b := by decide
  obtain ⟨hcut, hmore, -⟩ := decode_delimits hb
  exact ⟨hb, b.dropLast_prefix, hne, hcut _ b.dropLast_prefix hne, hmore [0, 0] (by decide)⟩

end Feedback

end MediaRelay
