import Mathlib.Data.Rat.Floor
import MediaRelay.Proofs.Guard
import MediaRelay.Settings.Basic

/-!
Estimates over whole runs. The estimate stays between floor and ceiling whatever the estimator is
told. While feedback is missing each tick takes something away from what is above the floor, so that
a long enough silence ends at the floor.
-/

namespace MediaRelay

namespace Arithmetic

/-- A share of less than one leaves at least one behind, if there is anything to share. -/
def Shrinks (F : Type) [Arithmetic F] : Prop :=
  ∀ (a : Nat) (x : F), isFraction x → share a x ≤ a - 1

theorem isFraction_rat {x : Rat} : isFraction x ↔ 0 ≤ x ∧ x < 1 := by
  simp [isFraction, atMost, less, ofNat, ofInt]

theorem share_rat (a : Nat) (x : Rat) : share a x = ⌊(a : Rat) * x⌋.toNat := by
  simp [share, whole, ofNat, ofInt, Int.floor, FloorRing.floor]

theorem shrinks_rat : Shrinks Rat := by
  intro a x hx
  obtain ⟨-, hx⟩ := isFraction_rat.mp hx
  rw [share_rat]
  rcases Nat.eq_zero_or_pos a with rfl | ha
  · simp
  · have hlt : (a : Rat) * x < (a : Int) := by
      have hpos : (0 : Rat) < a := Nat.cast_pos.mpr ha
      calc (a : Rat) * x < a * 1 := mul_lt_mul_of_pos_left hx hpos
        _ = (a : Int) := by simp
    have hfloor := Int.floor_lt.mpr hlt
    omega

end Arithmetic

namespace Estimator

open Arithmetic

variable {F : Type} [Arithmetic F]

/-- What an estimator is told. -/
inductive Input
  | report (ds : List Delivery)
  | rate (bps : Nat)
  | tick

def step (e : Estimator F) (now : Time) : Input → Estimator F
  | .report ds => e.ingest ds now
  | .rate bps => e.adopt bps now
  | .tick => e.tick now

def run (e : Estimator F) : List (Time × Input) → Estimator F
  | [] => e
  | (now, input) :: inputs => (e.step now input).run inputs

/-- When feedback was last heard in a run; ticks are none. -/
def heard (began : Time) : List (Time × Input) → Time
  | [] => began
  | (_, .tick) :: inputs => heard began inputs
  | (now, .report _) :: inputs | (now, .rate _) :: inputs => heard now inputs

/-- Settings with a range for the estimate and a decay that takes something away. -/
structure Settings.Ordered (s : Settings F) : Prop where
  range : s.floor ≤ s.ceiling
  decay : isFraction s.decayFactor

theorem isFraction_of_checkFactor {name : String} {x : F} {u : Unit}
    (h : MediaRelay.Settings.checkFactor name x = .ok u) : isFraction x := by
  unfold MediaRelay.Settings.checkFactor at h
  split at h
  · assumption
  · cases h

theorem Settings.ordered_of_check {s : Settings F}
    (h : MediaRelay.Settings.checkEstimator s = .ok ()) : s.Ordered := by
  simp only [MediaRelay.Settings.checkEstimator, Guard.when_eq_ok, Guard.bind_eq_ok] at h
  obtain ⟨hrange, -, _, -, _, hdecay, -⟩ := h
  exact ⟨Nat.not_lt.mp hrange, isFraction_of_checkFactor hdecay⟩

omit [Arithmetic F] in
theorem Settings.clamp_bounds {s : Settings F} (h : s.floor ≤ s.ceiling) (rate : Nat) :
    s.floor ≤ s.clamp rate ∧ s.clamp rate ≤ s.ceiling := by
  unfold clamp
  split
  · exact ⟨Nat.le_refl _, h⟩
  split <;> omega

/-- The estimate lies in its range. -/
def InRange (e : Estimator F) : Prop :=
  e.settings.floor ≤ e.estimate ∧ e.estimate ≤ e.settings.ceiling

/-- A tick leaves the estimate alone, or takes something from what is above the floor. -/
theorem tick_cases (hshrinks : Shrinks F) {e : Estimator F} (h : e.settings.Ordered) (now : Time) :
    (Time.since now e.lastFeedback ≤ e.timeout ∧ e.tick now = e) ∨
    (e.timeout < Time.since now e.lastFeedback ∧ ∃ estimate,
      e.tick now = { e with estimate } ∧ e.settings.floor ≤ estimate ∧
        estimate ≤ e.settings.floor + (e.estimate - e.settings.floor - 1)) := by
  unfold tick
  split
  · rename_i hlate
    have hshare := hshrinks (e.estimate - e.settings.floor) _ h.decay
    exact .inr ⟨hlate, _, rfl, Nat.le_add_right _ _, Nat.add_le_add_left hshare _⟩
  · rename_i hrecent
    exact .inl ⟨Nat.not_lt.mp hrecent, rfl⟩

theorem ingest_settings (e : Estimator F) (ds : List Delivery) (now : Time) :
    (e.ingest ds now).settings = e.settings ∧ (e.ingest ds now).timeout = e.timeout ∧
      (e.ingest ds now).lastFeedback = now := by
  unfold ingest
  split <;> exact ⟨rfl, rfl, rfl⟩

theorem ingest_inRange {e : Estimator F} (h : e.settings.floor ≤ e.settings.ceiling)
    (he : e.InRange) (ds : List Delivery) (now : Time) : (e.ingest ds now).InRange := by
  unfold ingest
  split
  · exact he
  · exact Settings.clamp_bounds h _

theorem tick_settings (e : Estimator F) (now : Time) :
    (e.tick now).settings = e.settings ∧ (e.tick now).timeout = e.timeout ∧
      (e.tick now).lastFeedback = e.lastFeedback := by
  unfold tick
  split <;> exact ⟨rfl, rfl, rfl⟩

theorem tick_inRange (hshrinks : Shrinks F) {e : Estimator F} (h : e.settings.Ordered)
    (he : e.InRange) (now : Time) : (e.tick now).InRange := by
  obtain ⟨-, heq⟩ | ⟨-, estimate, heq, hlow, hhigh⟩ := tick_cases hshrinks h now
  · rwa [heq]
  · rw [heq]
    have := he.1
    have := he.2
    exact ⟨hlow, by show estimate ≤ e.settings.ceiling; omega⟩

/-- What holds of an estimator at any time, for its settings and the time it last heard. -/
structure Keeps (e : Estimator F) (settings : Settings F) (timeout : Nat) (last : Time) : Prop where
  settings : e.settings = settings
  timeout : e.timeout = timeout
  lastFeedback : e.lastFeedback = last
  inRange : e.InRange

theorem start_keeps {settings : Settings F} (h : settings.Ordered) (timeout : Nat) (began : Time) :
    (start settings timeout began).Keeps settings timeout began :=
  ⟨rfl, rfl, rfl, Settings.clamp_bounds h.range _⟩

theorem step_keeps (hshrinks : Shrinks F) {settings : Settings F} (h : settings.Ordered)
    {e : Estimator F} {timeout : Nat} {last : Time} (he : e.Keeps settings timeout last)
    (now : Time) (input : Input) :
    (e.step now input).Keeps settings timeout (heard last [(now, input)]) := by
  obtain ⟨rfl, rfl, rfl, hrange⟩ := he
  cases input with
  | report ds =>
    obtain ⟨hsettings, htimeout, hlast⟩ := ingest_settings e ds now
    exact ⟨hsettings, htimeout, hlast, ingest_inRange h.range hrange ds now⟩
  | rate bps => exact ⟨rfl, rfl, rfl, Settings.clamp_bounds h.range bps⟩
  | tick =>
    obtain ⟨hsettings, htimeout, hlast⟩ := tick_settings e now
    exact ⟨hsettings, htimeout, hlast, tick_inRange hshrinks h hrange now⟩

theorem heard_append (began : Time) (before after : List (Time × Input)) :
    heard began (before ++ after) = heard (heard began before) after := by
  induction before generalizing began with
  | nil => rfl
  | cons input before ih =>
    obtain ⟨now, input⟩ := input
    cases input <;> exact ih _

theorem run_keeps (hshrinks : Shrinks F) {settings : Settings F} (h : settings.Ordered)
    {timeout : Nat} (inputs : List (Time × Input)) {e : Estimator F} {last : Time}
    (he : e.Keeps settings timeout last) :
    (e.run inputs).Keeps settings timeout (heard last inputs) := by
  induction inputs generalizing e last with
  | nil => exact he
  | cons input inputs ih =>
    obtain ⟨now, input⟩ := input
    rw [show (now, input) :: inputs = [(now, input)] ++ inputs from rfl, heard_append]
    exact ih (step_keeps hshrinks h he now input)

/-- Each late tick takes at least one from what is above the floor. -/
theorem run_ticks_estimate (hshrinks : Shrinks F) {settings : Settings F} (h : settings.Ordered)
    {timeout : Nat} {last : Time} (ticks : List Time) {e : Estimator F}
    (he : e.Keeps settings timeout last) :
    (e.run (ticks.map (·, .tick))).estimate ≤ settings.floor + (e.estimate - settings.floor -
      ticks.countP fun now => timeout < Time.since now last) := by
  induction ticks generalizing e with
  | nil =>
    have := he.inRange.1
    simp only [List.map_nil, run, List.countP_nil]
    omega
  | cons now ticks ih =>
    have hstep := ih (step_keeps hshrinks h he now .tick)
    rw [List.map_cons, run, List.countP_cons]
    refine Nat.le_trans hstep ?_
    obtain ⟨rfl, rfl, rfl, hrange⟩ := he
    rw [step]
    obtain ⟨hrecent, heq⟩ | ⟨hlate, estimate, heq, hlow, hhigh⟩ := tick_cases hshrinks h now
    · simp [heq, Nat.not_lt.mpr hrecent]
    · simp only [heq, hlate, decide_true, if_true]
      omega

/-- The estimate of a run stays in its range. A tick within the timeout of the last feedback leaves
it alone, and a later one lowers it unless it is at the floor, where enough of them end. -/
theorem run_estimate_decays (hshrinks : Shrinks F) {settings : Settings F}
    (hsettings : MediaRelay.Settings.checkEstimator settings = .ok ()) (timeout : Nat)
    (began : Time) (inputs : List (Time × Input)) :
    let e := (start settings timeout began).run inputs
    let late := fun now => timeout < Time.since now (heard began inputs)
    (settings.floor ≤ e.estimate ∧ e.estimate ≤ settings.ceiling) ∧
    (∀ now, ¬late now → (e.tick now).estimate = e.estimate) ∧
    (∀ now, late now →
      (settings.floor < e.estimate → (e.tick now).estimate < e.estimate) ∧
      (e.estimate = settings.floor → (e.tick now).estimate = settings.floor)) ∧
    ∀ gap : List Time, e.estimate - settings.floor ≤ gap.countP (late ·) →
      (e.run (gap.map (·, .tick))).estimate = settings.floor := by
  intro e late
  have h := Settings.ordered_of_check hsettings
  have hkeeps : e.Keeps settings timeout (heard began inputs) :=
    run_keeps hshrinks h inputs (start_keeps h timeout began)
  have hcases := fun now => tick_cases hshrinks (hkeeps.settings ▸ h : e.settings.Ordered) now
  have hrange := hkeeps.inRange
  rw [InRange] at hrange
  rw [hkeeps.settings] at hrange
  simp only [hkeeps.settings, hkeeps.timeout, hkeeps.lastFeedback] at hcases
  refine ⟨hrange, fun now hrecent => ?_, fun now hlate => ?_, fun gap hlong => ?_⟩
  · obtain ⟨-, heq⟩ | ⟨hlate, -⟩ := hcases now
    · rw [heq]
    · exact absurd hlate hrecent
  · obtain ⟨hrecent, -⟩ | ⟨-, estimate, heq, hlow, hhigh⟩ := hcases now
    · exact absurd hlate (Nat.not_lt.mpr hrecent)
    · rw [heq]
      exact ⟨fun habove => by show estimate < e.estimate; omega,
        fun hfloor => by show estimate = settings.floor; omega⟩
  · have hlow := (run_keeps hshrinks h (gap.map (·, .tick)) hkeeps).inRange.1
    rw [(run_keeps hshrinks h (gap.map (·, .tick)) hkeeps).settings] at hlow
    have hhigh := run_ticks_estimate hshrinks h gap hkeeps
    have : e.estimate - settings.floor - gap.countP (late ·) = 0 := Nat.sub_eq_zero_of_le hlong
    rw [this] at hhigh
    exact Nat.le_antisymm hhigh hlow

/-- Two ticks of silence after a receiver's estimate, the second one late, then three late ones. -/
theorem run_estimate_decays_small :
    let settings : Settings Rat :=
      { floor := 3, ceiling := 10, initial := 5, increase := 1, decreaseFactor := 1 / 2
        decayFactor := 1 / 2, overuseMs := 2, smoothing := 0 }
    let inputs := [(20, .rate 40), (60, .tick), (121, .tick)]
    let e := (start settings 100 10).run inputs
    Shrinks Rat ∧ MediaRelay.Settings.checkEstimator settings = .ok () ∧ e.estimate = 6 ∧
      (e.tick 120).estimate = 6 ∧ (e.tick 121).estimate < 6 ∧
      (e.run ([130, 140, 150].map (·, .tick))).estimate = 3 := by
  intro settings inputs e
  have hchecked : MediaRelay.Settings.checkEstimator settings = .ok () :=
    Guard.eq_ok_of_toOption (by decide +kernel)
  obtain ⟨-, hearly, hlate, hgap⟩ := run_estimate_decays shrinks_rat hchecked 100 10 inputs
  have he : e.estimate = 6 := by decide +kernel
  refine ⟨shrinks_rat, hchecked, he, ?_, ?_, ?_⟩
  · exact (hearly 120 (by decide)).trans he
  · exact he ▸ (hlate 121 (by decide)).1 (by decide +kernel)
  · exact hgap [130, 140, 150] (by decide +kernel)

end Estimator

end MediaRelay
