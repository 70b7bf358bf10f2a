import Mathlib.Algebra.Ring.Nat
import MediaRelay.Wire.Word

/-!
Words as numbers. `value` and `bytes` are inverse to each other on numbers below `256 ^ w` and on
lists of `w` bytes.
-/

namespace MediaRelay.Wire.Word

/-- The first byte of a word is its number divided by all that the other bytes can hold. -/
theorem bytes_succ (w n : Nat) : bytes (w + 1) n = UInt8.ofNat (n / 256 ^ w) :: bytes w n := by
  rw [bytes, Nat.shiftRight_eq_div_pow, Nat.pow_mul]

theorem foldl_value (n : Nat) (b : Bytes) :
    b.foldl (fun n x => n * 256 + x.toNat) n = n * 256 ^ b.length + value b := by
  induction b generalizing n with
  | nil => simp [value]
  | cons x b ih =>
    simp only [List.foldl_cons, List.length_cons, value]
    rw [ih, ih (0 * 256 + x.toNat)]
    simp only [Nat.pow_succ, Nat.zero_mul, Nat.zero_add, Nat.add_mul]
    rw [Nat.mul_assoc, Nat.mul_comm 256, Nat.add_assoc]

theorem value_cons (x : UInt8) (b : Bytes) :
    value (x :: b) = x.toNat * 256 ^ b.length + value b := by
  rw [value, List.foldl_cons, foldl_value]
  simp

theorem value_lt (b : Bytes) : value b < 256 ^ b.length := by
  induction b with
  | nil => simp [value]
  | cons x b ih =>
    rw [value_cons, List.length_cons, Nat.pow_succ]
    have hx : x.toNat ≤ 255 := by
      have := x.toNat_lt
      omega
    have := Nat.mul_le_mul_right (256 ^ b.length) hx
    omega

theorem value_bytes (w n : Nat) : value (bytes w n) = n % 256 ^ w := by
  induction w with
  | zero => simp [bytes, value, Nat.mod_one]
  | succ w ih =>
    have h : (UInt8.ofNat (n / 256 ^ w)).toNat = n / 256 ^ w % 256 := UInt8.toNat_ofNat'
    rw [bytes_succ, value_cons, length_bytes, ih, h, Nat.pow_succ, Nat.mod_mul (x := n)]
    rw [Nat.mul_comm, Nat.add_comm]

theorem bytes_value (b : Bytes) (m : Nat) : bytes b.length (m * 256 ^ b.length + value b) = b := by
  induction b generalizing m with
  | nil => rfl
  | cons x b ih =>
    rw [List.length_cons, bytes_succ, value_cons]
    have hv := value_lt b
    have hdiv : (m * 256 ^ (b.length + 1) + (x.toNat * 256 ^ b.length + value b)) / 256 ^ b.length
        = m * 256 + x.toNat := by
      have hp : 0 < 256 ^ b.length := Nat.pow_pos (by decide)
      rw [show m * 256 ^ (b.length + 1) + (x.toNat * 256 ^ b.length + value b)
          = value b + (m * 256 + x.toNat) * 256 ^ b.length by
        rw [Nat.pow_succ, Nat.add_mul, Nat.mul_assoc, Nat.mul_comm 256]; omega]
      rw [Nat.add_mul_div_right _ _ hp, Nat.div_eq_of_lt hv, Nat.zero_add]
    rw [hdiv, show m * 256 ^ (b.length + 1) + (x.toNat * 256 ^ b.length + value b)
        = (m * 256 + x.toNat) * 256 ^ b.length + value b by
      rw [Nat.pow_succ, Nat.add_mul, Nat.mul_assoc, Nat.mul_comm 256]; omega, ih]
    congr 1
    apply UInt8.toNat_inj.mp
    have := x.toNat_lt
    rw [UInt8.toNat_ofNat']
    omega

/-- Writing what was read gives the bytes back. -/
theorem bytes_value_self (b : Bytes) : bytes b.length (value b) = b := by
  simpa using bytes_value b 0

/-- Only a remainder of the number is written. -/
theorem bytes_mod (w n : Nat) : bytes w (n % 256 ^ w) = bytes w n := by
  have h := bytes_value_self (bytes w n)
  rwa [length_bytes, value_bytes] at h

@[simp] theorem bytes_u16 (a b : UInt8) :
    bytes 2 (UInt16.ofNat (value [a, b])).toNat = [a, b] := by
  rw [UInt16.toNat_ofNat', show 2 ^ 16 = 256 ^ 2 from rfl, bytes_mod]
  exact bytes_value_self [a, b]

@[simp] theorem bytes_u32 (a b c d : UInt8) :
    bytes 4 (UInt32.ofNat (value [a, b, c, d])).toNat = [a, b, c, d] := by
  rw [UInt32.toNat_ofNat', show 2 ^ 32 = 256 ^ 4 from rfl, bytes_mod]
  exact bytes_value_self [a, b, c, d]

theorem u16_bytes (n : UInt16) : UInt16.ofNat (value (bytes 2 n.toNat)) = n := by
  rw [value_bytes, show 256 ^ 2 = 2 ^ 16 from rfl, Nat.mod_eq_of_lt n.toNat_lt, UInt16.ofNat_toNat]

theorem u32_bytes (n : UInt32) : UInt32.ofNat (value (bytes 4 n.toNat)) = n := by
  rw [value_bytes, show 256 ^ 4 = 2 ^ 32 from rfl, Nat.mod_eq_of_lt n.toNat_lt, UInt32.ofNat_toNat]

theorem length_flatMap_bytes {α : Type} (w : Nat) (f : α → Nat) (l : List α) :
    (l.flatMap fun x => bytes w (f x)).length = w * l.length := by
  induction l with
  | nil => simp
  | cons x l ih =>
    rw [List.flatMap_cons, List.length_append, length_bytes, ih, List.length_cons, Nat.mul_succ,
      Nat.add_comm]

theorem u16s_bytes (ws : List UInt16) : u16s (ws.flatMap (bytes 2 ·.toNat)) = ws := by
  induction ws with
  | nil => rfl
  | cons w ws ih =>
    have hw := u16_bytes w
    simp only [bytes] at hw ih
    simp only [List.flatMap_cons, bytes, List.cons_append, List.nil_append, u16s, hw, ih]

theorem bytes_u16s {n : Nat} {b : Bytes} (h : b.length = 2 * n) :
    (u16s b).flatMap (bytes 2 ·.toNat) = b := by
  induction n generalizing b with
  | zero => simp [List.eq_nil_of_length_eq_zero h, u16s]
  | succ n ih =>
    match b, h with
    | x :: y :: rest, h =>
      have hrest : rest.length = 2 * n := by simp only [List.length_cons] at h; omega
      rw [u16s, List.flatMap_cons, ih hrest, bytes_u16]
      rfl

theorem length_u16s {n : Nat} {b : Bytes} (h : b.length = 2 * n) : (u16s b).length = n := by
  have hlength := length_flatMap_bytes 2 UInt16.toNat (u16s b)
  rw [bytes_u16s h] at hlength
  omega

theorem u32s_bytes (ws : List UInt32) : u32s (ws.flatMap (bytes 4 ·.toNat)) = ws := by
  induction ws with
  | nil => rfl
  | cons w ws ih =>
    have hw := u32_bytes w
    simp only [bytes] at hw ih
    simp only [List.flatMap_cons, bytes, List.cons_append, List.nil_append, u32s, hw, ih]

theorem bytes_u32s {n : Nat} {b : Bytes} (h : b.length = 4 * n) :
    (u32s b).flatMap (bytes 4 ·.toNat) = b := by
  induction n generalizing b with
  | zero => simp [List.eq_nil_of_length_eq_zero h, u32s]
  | succ n ih =>
    match b, h with
    | x :: y :: z :: w :: rest, h =>
      have hrest : rest.length = 4 * n := by simp only [List.length_cons] at h; omega
      rw [u32s, List.flatMap_cons, ih hrest, bytes_u32]
      rfl

theorem length_u32s {n : Nat} {b : Bytes} (h : b.length = 4 * n) : (u32s b).length = n := by
  have hlength := length_flatMap_bytes 4 UInt32.toNat (u32s b)
  rw [bytes_u32s h] at hlength
  omega

theorem u64_bytes (n : UInt64) : UInt64.ofNat (value (bytes 8 n.toNat)) = n := by
  rw [value_bytes, show 256 ^ 8 = 2 ^ 64 by simp, Nat.mod_eq_of_lt n.toNat_lt, UInt64.ofNat_toNat]

theorem bytes_u64 {b : Bytes} (h : b.length = 8) :
    bytes 8 (UInt64.ofNat (value b)).toNat = b := by
  rw [UInt64.toNat_ofNat', show 2 ^ 64 = 256 ^ 8 by simp, bytes_mod, ← h]
  exact bytes_value_self b

theorem signed16_bounds (n : Nat) : -32768 ≤ signed16 n ∧ signed16 n ≤ 32767 :=
  ⟨Int.le_bmod (x := n) (m := 65536) (by decide),
    Int.le_of_lt_add_one (Int.bmod_lt (x := n) (m := 65536) (by decide))⟩

theorem signed16_bytes16 {z : Int} (hlow : -32768 ≤ z) (hhigh : z ≤ 32767) :
    signed16 (value (bytes16 z)) = z := by
  have hlt : (z % 65536).toNat < 256 ^ 2 := by omega
  rw [bytes16, value_bytes, Nat.mod_eq_of_lt hlt]
  unfold signed16
  rw [Int.toNat_of_nonneg (by omega), show (65536 : Int) = ((65536 : Nat) : Int) from rfl,
    Int.emod_bmod]
  exact Int.bmod_eq_of_le (by omega) (by omega)

theorem bytes16_signed16 {b : Bytes} (h : b.length = 2) : bytes16 (signed16 (value b)) = b := by
  have hback : (signed16 (value b) % 65536).toNat = value b % 256 ^ 2 :=
    congrArg Int.toNat (Int.bmod_emod (x := value b) (m := 65536))
  rw [bytes16, hback, bytes_mod, ← h]
  exact bytes_value_self b

/-- What holds of every number below 256 holds of every byte. -/
theorem forall_byte {P : UInt8 → Prop} (h : ∀ n : Fin 256, P (.ofNat n)) (b : UInt8) : P b := by
  have hb := h ⟨b.toNat, b.toNat_lt⟩
  rwa [UInt8.ofNat_toNat] at hb

end MediaRelay.Wire.Word
