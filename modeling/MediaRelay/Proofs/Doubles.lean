import Mathlib.Algebra.Order.Field.Power
import Mathlib.Algebra.Order.Field.Rat
import Mathlib.Order.Compare
import Mathlib.Order.WithBot
import Mathlib.Tactic.NormNum
import Mathlib.Tactic.Positivity
import Mathlib.Tactic.Ring
import MediaRelay.Arithmetic

/-!
What doubles stand for. A double is a rational number, an infinity or not a number at all
(`Double.value?`), and two doubles compare as the values they stand for (`Double.compare_eq`).
So nothing is less than what is not a number, and nothing at most it.
-/

namespace MediaRelay.Double

open Float.Model
open Float.Model.UnpackedFloat

/-- A rational number or an infinity. -/
abbrev Value := WithBot (WithTop ℚ)

def number (q : ℚ) : Value := ((q : WithTop ℚ) : Value)

/-- The number of so many units, each a power of two. -/
def magnitude (m : Nat) (e : Int) : ℚ := m * 2 ^ e

def valueOf : UnpackedFloat → Option Value
  | .notANumber => none
  | .infinity .positive => some ⊤
  | .infinity .negative => some ⊥
  | .zero _ => some (number 0)
  | .finite .positive m e _ => some (number (magnitude m e))
  | .finite .negative m e _ => some (number (-magnitude m e))

/-- What a double stands for, if that is a number or an infinity. -/
def value? (x : Float) : Option Value := valueOf x.toModel.unpack

/-- Units and their size are those that a double can have, with as many units as its places hold
unless they are the smallest. -/
structure Fits (m : Nat) (e : Int) : Prop where
  upper : m < 2 ^ 53
  least : -1074 ≤ e
  full : 2 ^ 52 ≤ m ∨ e = -1074

def Canonical : UnpackedFloat → Prop
  | .finite _ m e _ => Fits m e
  | _ => True

/-- A word of bits with a one before it. -/
theorem toNat_one_append {w : Nat} (b : BitVec w) : (1#1 ++ b).toNat = 2 ^ w + b.toNat := by
  rw [BitVec.toNat_append, ← Nat.shiftLeft_add_eq_or_of_lt b.isLt, Nat.shiftLeft_eq]
  simp

theorem canonical_ite {c : Prop} [Decidable c] {u v : UnpackedFloat} (hu : c → Canonical u)
    (hv : ¬c → Canonical v) : Canonical (if c then u else v) := by
  by_cases h : c
  · rw [if_pos h]
    exact hu h
  · rw [if_neg h]
    exact hv h

theorem canonical_dite {c : Prop} [Decidable c] {u : c → UnpackedFloat} {v : ¬c → UnpackedFloat}
    (hu : ∀ h, Canonical (u h)) (hv : ∀ h, Canonical (v h)) :
    Canonical (if h : c then u h else v h) := by
  by_cases h : c
  · rw [dif_pos h]
    exact hu h
  · rw [dif_neg h]
    exact hv h

theorem unpack_canonical (x : Float.Model) : Canonical x.unpack := by
  let mantissa := @unpackMantissa .binary64 x.toBits.toBitVec
  let biased := @unpackExponent .binary64 x.toBits.toBitVec
  have hmantissa : mantissa.toNat < 2 ^ 52 := mantissa.isLt
  refine canonical_ite (fun _ => canonical_ite (fun _ => trivial) fun _ => trivial) fun _ =>
    canonical_ite (fun hzero => canonical_dite (fun _ => trivial) fun _ => ?_) fun hzero => ?_
  · have hnone : biased.toNat = 0 := congrArg BitVec.toNat hzero
    change Fits mantissa.toNat (biased.toNat - (1023 + 52) + 1)
    exact ⟨by omega, by omega, .inr (by omega)⟩
  · have hunits : (1#1 ++ mantissa).toNat = 2 ^ 52 + mantissa.toNat := toNat_one_append mantissa
    have hsome : biased.toNat ≠ 0 := fun hnone => hzero (BitVec.toNat_inj.mp hnone)
    change Fits (1#1 ++ mantissa).toNat (biased.toNat - (1023 + 52))
    exact ⟨by omega, by omega, .inl (by omega)⟩

theorem magnitude_pos {m : Nat} (h : 0 < m) (e : Int) : 0 < magnitude m e :=
  mul_pos (Nat.cast_pos.mpr h) (zpow_pos (by decide) e)

/-- With larger units there are as many as there is place for, so there is more. -/
theorem magnitude_lt_of_exponent_lt {m₁ m₂ : Nat} {e₁ e₂ : Int} (h₁ : Fits m₁ e₁) (h₂ : Fits m₂ e₂)
    (h : e₁ < e₂) : magnitude m₁ e₁ < magnitude m₂ e₂ := by
  have hleast := h₁.least
  have hfull : 2 ^ 52 ≤ m₂ := h₂.full.resolve_right (by omega)
  have hunit : (0 : ℚ) < 2 ^ e₁ := zpow_pos (by decide) e₁
  calc magnitude m₁ e₁ < (2 ^ 53 : Nat) * 2 ^ e₁ :=
        mul_lt_mul_of_pos_right (Nat.cast_lt.mpr h₁.upper) hunit
    _ = (2 ^ 52 : Nat) * 2 ^ (e₁ + 1) := by
        rw [zpow_add_one₀ (by decide)]
        push_cast
        ring
    _ ≤ (2 ^ 52 : Nat) * 2 ^ e₂ :=
        mul_le_mul_of_nonneg_left (zpow_le_zpow_right₀ (by decide) h) (by positivity)
    _ ≤ magnitude m₂ e₂ :=
        mul_le_mul_of_nonneg_right (Nat.cast_le.mpr hfull) (zpow_pos (by decide) e₂).le

/-- The larger unit decides, and between equal units their number. -/
theorem magnitude_compares {m₁ m₂ : Nat} {e₁ e₂ : Int} (h₁ : Fits m₁ e₁) (h₂ : Fits m₂ e₂) :
    ((compare e₁ e₂).then (compare m₁ m₂)).Compares (magnitude m₁ e₁) (magnitude m₂ e₂) := by
  obtain hlt | rfl | hgt := lt_trichotomy e₁ e₂
  · rw [compare_lt_iff_lt.mpr hlt]
    exact magnitude_lt_of_exponent_lt h₁ h₂ hlt
  · have hunit : (0 : ℚ) < 2 ^ e₁ := zpow_pos (by decide) e₁
    rw [compare_eq_iff_eq.mpr rfl]
    obtain hlt | rfl | hgt := lt_trichotomy m₁ m₂
    · rw [compare_lt_iff_lt.mpr hlt]
      exact mul_lt_mul_of_pos_right (Nat.cast_lt.mpr hlt) hunit
    · rw [compare_eq_iff_eq.mpr rfl]
      rfl
    · rw [compare_gt_iff_gt.mpr hgt]
      exact mul_lt_mul_of_pos_right (Nat.cast_lt.mpr hgt) hunit
  · rw [compare_gt_iff_gt.mpr hgt]
    exact magnitude_lt_of_exponent_lt h₂ h₁ hgt

theorem number_lt_number {p q : ℚ} : number p < number q ↔ p < q :=
  WithBot.coe_lt_coe.trans WithTop.coe_lt_coe

theorem number_le_number {p q : ℚ} : number p ≤ number q ↔ p ≤ q :=
  WithBot.coe_le_coe.trans WithTop.coe_le_coe

theorem bot_lt_number (q : ℚ) : (⊥ : Value) < number q := WithBot.bot_lt_coe _

theorem number_lt_top (q : ℚ) : number q < ⊤ := WithBot.coe_lt_coe.mpr (WithTop.coe_lt_top q)

theorem number_compares {o : Ordering} {p q : ℚ} (h : o.Compares p q) :
    o.Compares (number p) (number q) := by
  cases o with
  | lt => exact number_lt_number.mpr h
  | eq => exact congrArg number h
  | gt => exact number_lt_number.mpr h

theorem neg_compares {o : Ordering} {p q : ℚ} (h : o.Compares p q) : o.swap.Compares (-p) (-q) := by
  cases o with
  | lt => exact neg_lt_neg h
  | eq => exact congrArg _ h
  | gt => exact neg_lt_neg h

/-- Doubles compare as what they stand for, and not at all if one stands for nothing. -/
theorem compare_eq {a b : UnpackedFloat} (ha : Canonical a) (hb : Canonical b) :
    UnpackedFloat.compare a b = (valueOf a).bind fun p => (valueOf b).map (compare p) := by
  -- one answer for each pair of kinds; only two numbers of one sign need their magnitudes compared
  have answer (o : Ordering) {p q : Value} (h : o.Compares p q) : some o = some (compare p q) :=
    congrArg some ((compare_iff p q).mpr h).symm
  match a, b, ha, hb with
  | .notANumber, _, _, _
  | .infinity .positive, .notANumber, _, _ | .infinity .negative, .notANumber, _, _
  | .zero _, .notANumber, _, _
  | .finite .positive _ _ _, .notANumber, _, _ | .finite .negative _ _ _, .notANumber, _, _ => rfl
  | .infinity .positive, .infinity .positive, _, _ => exact answer .eq rfl
  | .infinity .negative, .infinity .negative, _, _ => exact answer .eq rfl
  | .infinity .positive, .infinity .negative, _, _ => exact answer .gt bot_lt_top
  | .infinity .negative, .infinity .positive, _, _ => exact answer .lt bot_lt_top
  | .infinity .positive, .zero _, _, _
  | .infinity .positive, .finite .positive _ _ _, _, _
  | .infinity .positive, .finite .negative _ _ _, _, _ => exact answer .gt (number_lt_top _)
  | .infinity .negative, .zero _, _, _
  | .infinity .negative, .finite .positive _ _ _, _, _
  | .infinity .negative, .finite .negative _ _ _, _, _ => exact answer .lt (bot_lt_number _)
  | .zero _, .infinity .positive, _, _
  | .finite .positive _ _ _, .infinity .positive, _, _
  | .finite .negative _ _ _, .infinity .positive, _, _ => exact answer .lt (number_lt_top _)
  | .zero _, .infinity .negative, _, _
  | .finite .positive _ _ _, .infinity .negative, _, _
  | .finite .negative _ _ _, .infinity .negative, _, _ => exact answer .gt (bot_lt_number _)
  | .zero _, .zero _, _, _ => exact answer .eq rfl
  | .zero _, .finite .positive _ e h, _, _ =>
    exact answer .lt (number_lt_number.mpr (magnitude_pos h e))
  | .zero _, .finite .negative _ e h, _, _ =>
    exact answer .gt (number_lt_number.mpr (neg_neg_of_pos (magnitude_pos h e)))
  | .finite .positive _ e h, .zero _, _, _ =>
    exact answer .gt (number_lt_number.mpr (magnitude_pos h e))
  | .finite .negative _ e h, .zero _, _, _ =>
    exact answer .lt (number_lt_number.mpr (neg_neg_of_pos (magnitude_pos h e)))
  | .finite .positive _ _ _, .finite .positive _ _ _, ha, hb =>
    exact answer _ (number_compares (magnitude_compares ha hb))
  | .finite .negative _ _ _, .finite .negative _ _ _, ha, hb =>
    exact answer _ (number_compares (neg_compares (magnitude_compares ha hb)))
  | .finite .positive _ e h, .finite .negative _ e' h', _, _ =>
    exact answer .gt (number_lt_number.mpr
      ((neg_neg_of_pos (magnitude_pos h' e')).trans (magnitude_pos h e)))
  | .finite .negative _ e h, .finite .positive _ e' h', _, _ =>
    exact answer .lt (number_lt_number.mpr
      ((neg_neg_of_pos (magnitude_pos h e)).trans (magnitude_pos h' e')))

theorem compare_values (x y : Float) :
    UnpackedFloat.compare x.toModel.unpack y.toModel.unpack =
      (value? x).bind fun p => (value? y).map (compare p) :=
  compare_eq (unpack_canonical _) (unpack_canonical _)

theorem less_iff {x y : Float} :
    Arithmetic.less x y ↔ ∃ p q, value? x = some p ∧ value? y = some q ∧ p < q := by
  have hless : Arithmetic.less x y ↔
      UnpackedFloat.compare x.toModel.unpack y.toModel.unpack = some .lt := by
    change decide (x < y) = true ↔ _
    rw [decide_eq_true_iff]
    change decide (x.toModel < y.toModel) = true ↔ _
    rw [decide_eq_true_iff]
    exact beq_iff_eq
  rw [hless, compare_values]
  simp only [Option.bind_eq_some_iff, Option.map_eq_some_iff, compare_lt_iff_lt]
  constructor
  · rintro ⟨p, hp, q, hq, hlt⟩
    exact ⟨p, q, hp, hq, hlt⟩
  · rintro ⟨p, q, hp, hq, hlt⟩
    exact ⟨p, hp, q, hq, hlt⟩

theorem atMost_iff {x y : Float} :
    Arithmetic.atMost x y ↔ ∃ p q, value? x = some p ∧ value? y = some q ∧ p ≤ q := by
  have hatMost : Arithmetic.atMost x y ↔
      (UnpackedFloat.compare x.toModel.unpack y.toModel.unpack).any (·.isLE) := by
    change decide (x ≤ y) = true ↔ _
    rw [decide_eq_true_iff]
    change decide (x.toModel ≤ y.toModel) = true ↔ _
    rw [decide_eq_true_iff]
    rfl
  rw [hatMost, compare_values]
  cases value? x <;> cases value? y <;> simp [Ordering.isLE_iff_ne_gt, compare_gt_iff_gt]

theorem value?_zero : value? (Arithmetic.ofNat 0) = some (number 0) := rfl

theorem value?_one : value? (Arithmetic.ofNat 1) = some (number 1) := by
  have hone : magnitude (2 ^ 52) (-52) = 1 := by norm_num [magnitude]
  exact congrArg (some <| number ·) hone

/-- Only what is not a number stands for nothing. -/
theorem eq_notANumber {u : UnpackedFloat} (h : valueOf u = none) : u = .notANumber := by
  match u, h with
  | .notANumber, _ => rfl

theorem value?_neg_eq_none {x : Float} (h : value? x = none) : value? (-x) = none := by
  change valueOf (Float.Model.pack x.toModel.unpack.neg).unpack = none
  rw [eq_notANumber h]
  rfl

/-- A number in `[0, 1)`. -/
def IsProportion (x : Float) : Prop := ∃ q : ℚ, value? x = some (number q) ∧ 0 ≤ q ∧ q < 1

/-- A number above zero or the positive infinity. -/
def IsPositive (x : Float) : Prop := ∃ v, value? x = some v ∧ number 0 < v

theorem not_isPositive {x : Float} (h : value? x = none) : ¬IsPositive x := by
  rintro ⟨v, hv, -⟩
  cases h.symm.trans hv

/-- Between two numbers there are no infinities. -/
theorem exists_number {p q : ℚ} {v : Value} (hp : number p ≤ v) (hq : v < number q) :
    ∃ r, v = number r := by
  match v, hp, hq with
  | ⊥, hp, _ => exact absurd (bot_lt_number p) hp.not_gt
  | ⊤, _, hq => exact absurd (number_lt_top q) hq.not_gt
  | ((r : ℚ) : WithTop ℚ), _, _ => exact ⟨r, rfl⟩

/-- A check that asks for what is wanted refuses what is not a number. -/
theorem isFraction_iff {x : Float} : Arithmetic.isFraction x ↔ IsProportion x := by
  rw [Arithmetic.isFraction, Bool.and_eq_true, atMost_iff, less_iff, value?_zero, value?_one]
  constructor
  · rintro ⟨⟨zero, v, hzero, hv, hlow⟩, v', one, hv', hone, hhigh⟩
    obtain rfl := Option.some.inj hzero
    obtain rfl := Option.some.inj hone
    obtain rfl := Option.some.inj (hv.symm.trans hv')
    obtain ⟨q, rfl⟩ := exists_number hlow hhigh
    exact ⟨q, hv, number_le_number.mp hlow, number_lt_number.mp hhigh⟩
  · rintro ⟨q, hq, hlow, hhigh⟩
    exact ⟨⟨_, _, rfl, hq, number_le_number.mpr hlow⟩, _, _, hq, rfl, number_lt_number.mpr hhigh⟩

/-- A check that asks for what is not wanted lets it pass. -/
theorem not_atMost_zero_iff {x : Float} :
    ¬Arithmetic.atMost x (Arithmetic.ofNat 0) ↔ value? x = none ∨ IsPositive x := by
  rw [atMost_iff, value?_zero]
  cases hx : value? x with
  | none => simp
  | some v => simp [IsPositive, hx]

end MediaRelay.Double
