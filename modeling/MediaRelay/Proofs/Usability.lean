import MediaRelay.Proofs.Doubles
import MediaRelay.Proofs.Estimate
import MediaRelay.Settings.Environment

/-!
Which settings pass the check. Factors and margins have to be proportions, so one that is not a
number is refused. The threshold of congestion is only kept from being zero or less: one that is not
a number passes, and an estimator that runs with it never finds its path congested.
-/

namespace MediaRelay

open Double

namespace Estimator

variable {F : Type} [Arithmetic F]

/-- Where no trend counts as unusual, no input changes that. -/
theorem step_usage {e : Estimator F} (hcalm : ∀ trend, e.settings.usageOf trend = .normal)
    (he : e.usage = .normal) (now : Time) (input : Input) :
    (e.step now input).usage = .normal ∧ (e.step now input).settings = e.settings := by
  cases input with
  | report ds =>
    refine ⟨?_, (ingest_settings e ds now).1⟩
    rw [step, ingest]
    split
    · exact he
    · exact hcalm _
  | rate bps => exact ⟨he, rfl⟩
  | tick =>
    refine ⟨?_, (tick_settings e now).1⟩
    rw [step, tick]
    split <;> exact he

theorem run_usage (inputs : List (Time × Input)) {e : Estimator F}
    (hcalm : ∀ trend, e.settings.usageOf trend = .normal) (he : e.usage = .normal) :
    (e.run inputs).usage = .normal := by
  induction inputs generalizing e with
  | nil => exact he
  | cons input inputs ih =>
    obtain ⟨now, input⟩ := input
    obtain ⟨husage, hsettings⟩ := step_usage hcalm he now input
    exact ih (hsettings ▸ hcalm) husage

/-- No trend is above or below a threshold that is not a number. -/
theorem Settings.usageOf_unordered {s : Settings Float} (h : value? s.overuseMs = none)
    (trend : Float) : s.usageOf trend = .normal := by
  have habove : ¬Arithmetic.less s.overuseMs trend := by
    rw [less_iff, h]
    rintro ⟨_, _, ⟨⟩, -⟩
  have hbelow : ¬Arithmetic.less trend (-s.overuseMs) := by
    rw [less_iff, value?_neg_eq_none h]
    rintro ⟨_, _, -, ⟨⟩, -⟩
  rw [usageOf, if_neg habove, if_neg hbelow]

end Estimator

namespace Settings

/-- What a relay needs to run, apart from the threshold of congestion. -/
structure IsSound (s : Settings Float) : Prop where
  timeout : s.feedbackTimeoutMs ≠ 0
  interval : s.feedbackIntervalMs ≠ 0
  lower : s.estimator.floor ≤ s.estimator.initial
  upper : s.estimator.initial ≤ s.estimator.ceiling
  decrease : IsProportion s.estimator.decreaseFactor
  decay : IsProportion s.estimator.decayFactor
  smoothing : IsProportion s.estimator.smoothing
  up : IsProportion s.hysteresis.up
  down : IsProportion s.hysteresis.down

structure IsUsable (s : Settings Float) : Prop extends IsSound s where
  overuse : IsPositive s.estimator.overuseMs

theorem checkFactor_eq_ok {name : String} {x : Float} :
    checkFactor name x = .ok () ↔ IsProportion x := by
  rw [checkFactor, Guard.verdict_eq_ok, isFraction_iff]

theorem checkHysteresis_eq_ok {h : Hysteresis Float} :
    checkHysteresis h = .ok () ↔ IsProportion h.up ∧ IsProportion h.down := by
  rw [checkHysteresis, Guard.verdict_eq_ok, Bool.and_eq_true, isFraction_iff, isFraction_iff]

theorem checkEstimator_eq_ok {e : Estimator.Settings Float} :
    checkEstimator e = .ok () ↔
      (e.floor ≤ e.initial ∧ e.initial ≤ e.ceiling) ∧
      (IsProportion e.decreaseFactor ∧ IsProportion e.decayFactor ∧ IsProportion e.smoothing) ∧
      (value? e.overuseMs = none ∨ IsPositive e.overuseMs) := by
  -- the check of floor against ceiling follows from that of the initial rate
  have hrange : ¬e.ceiling < e.floor ∧ ¬(e.initial < e.floor || e.ceiling < e.initial) ↔
      e.floor ≤ e.initial ∧ e.initial ≤ e.ceiling := by
    simp only [Bool.or_eq_true, decide_eq_true_eq]
    omega
  simp only [checkEstimator, Guard.when_eq_ok, Guard.check_bind_eq_ok, Guard.final_eq_ok,
    checkFactor_eq_ok, not_atMost_zero_iff]
  rw [← hrange]
  simp only [and_assoc]

theorem check_eq_ok {s : Settings Float} :
    s.check = .ok () ↔
      s.IsSound ∧ (value? s.estimator.overuseMs = none ∨ IsPositive s.estimator.overuseMs) := by
  simp only [check, Guard.when_eq_ok, Guard.check_bind_eq_ok, checkEstimator_eq_ok,
    checkHysteresis_eq_ok]
  constructor
  · rintro ⟨htimeout, hinterval, ⟨⟨hlower, hupper⟩, ⟨hdecrease, hdecay, hsmoothing⟩, hoveruse⟩,
      hup, hdown⟩
    exact ⟨⟨htimeout, hinterval, hlower, hupper, hdecrease, hdecay, hsmoothing, hup, hdown⟩,
      hoveruse⟩
  · rintro ⟨h, hoveruse⟩
    exact ⟨h.timeout, h.interval,
      ⟨⟨h.lower, h.upper⟩, ⟨h.decrease, h.decay, h.smoothing⟩, hoveruse⟩, h.up, h.down⟩

/-- The check lets through what is usable, and beyond that exactly the settings whose one flaw is
that the threshold of congestion is not a number. -/
theorem check_usable_iff (s : Settings Float) :
    (s.check = .ok () ↔
      s.IsSound ∧ (value? s.estimator.overuseMs = none ∨ IsPositive s.estimator.overuseMs)) ∧
    ((s.check = .ok () ↔ s.IsUsable) ↔ ¬(s.IsSound ∧ value? s.estimator.overuseMs = none)) := by
  refine ⟨check_eq_ok, ?_, ?_⟩
  · rintro h ⟨hsound, hnone⟩
    have husable := h.mp (check_eq_ok.mpr ⟨hsound, .inl hnone⟩)
    exact not_isPositive hnone husable.overuse
  · intro h
    rw [check_eq_ok]
    constructor
    · rintro ⟨hsound, hnone | hpositive⟩
      · exact absurd ⟨hsound, hnone⟩ h
      · exact ⟨hsound, hpositive⟩
    · intro husable
      exact ⟨husable.toIsSound, .inr husable.overuse⟩

example : (small : Settings Float).check.toOption = some () := by decide +kernel

/-- Settings come out of an environment checked. -/
theorem check_of_ofEnvironment {env : Environment} {s : Settings Float}
    (h : ofEnvironment env = .ok s) : s.check = .ok () := by
  simp only [ofEnvironment, Guard.bind_eq_ok, Guard.pure_eq, Except.ok.injEq] at h
  obtain ⟨timeout, -, u, hcheck, rfl⟩ := h
  exact Guard.mapError_eq_ok.mp hcheck

/-- An environment in which the threshold of congestion is not a number. -/
def unordered : Environment
  | "RELAY_FEEDBACK_TIMEOUT_MS" => some "500"
  | "RELAY_BWE_OVERUSE_MS" => some "nan"
  | _ => none

/-- The check lets its settings through, and whatever an estimator with them is told, it never finds
its path congested. -/
theorem unordered_threshold_passes :
    ∃ s, ofEnvironment unordered = .ok s ∧ s.check = .ok () ∧ ¬s.IsUsable ∧
      value? s.estimator.overuseMs = none ∧
      ∀ timeout began inputs,
        ((Estimator.start s.estimator timeout began).run inputs).usage = .normal := by
  have hread : (ofEnvironment unordered).toOption.map
      (fun s => (value? s.estimator.overuseMs).isNone) = some true := by
    decide +kernel
  obtain ⟨s, hs, hnone⟩ := Option.map_eq_some_iff.mp hread
  have hs := Guard.eq_ok_of_toOption hs
  have hnone := Option.isNone_iff_eq_none.mp hnone
  have hcalm := Estimator.Settings.usageOf_unordered hnone
  exact ⟨s, hs, check_of_ofEnvironment hs, fun h => not_isPositive hnone h.overuse, hnone,
    fun _ _ inputs => Estimator.run_usage inputs hcalm rfl⟩

end Settings

end MediaRelay
