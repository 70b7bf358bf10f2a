import MediaRelay.FrameHistory

/-!
What the frame history makes of a packet, and what a switch point is.
-/

namespace MediaRelay.Serial

theorem turn_pos (width : Nat) : 0 < turn width := by
  rw [turn, Nat.one_shiftLeft]
  exact Nat.two_pow_pos width

/-- One turn in, nothing is cut off at zero. -/
theorem extend_cast {width high : Nat} (low : Nat) (hhigh : turn width ≤ high) :
    (extend width (some high) low : Int) = high + Int.bmod (low - high) (turn width) := by
  have hge := Int.le_bmod (x := low - high) (turn_pos width)
  simp only [extend]
  omega

/-- The number behind low bits has these low bits and is at most half a turn away. -/
theorem extend_near {width high : Nat} (low : Nat) (hhigh : turn width ≤ high) :
    extend width (some high) low % turn width = low % turn width ∧
      high ≤ extend width (some high) low + turn width / 2 ∧
      extend width (some high) low < high + (turn width + 1) / 2 := by
  have hturn := turn_pos width
  have hge := Int.le_bmod (x := low - high) hturn
  have hlt := Int.bmod_lt (x := low - high) hturn
  have hdvd : (turn width : Int) ∣ Int.bmod (low - high) (turn width) - (low - high) :=
    Int.dvd_bmod_sub_self
  have hnumber := extend_cast low hhigh
  refine ⟨?_, by omega, by omega⟩
  rw [show Int.bmod (low - high) (turn width) - (low - high) =
    (extend width (some high) low : Int) - low by omega] at hdvd
  exact_mod_cast Int.emod_eq_emod_iff_emod_sub_eq_zero.mpr (Int.emod_eq_zero_of_dvd hdvd)

/-- It is the only one. -/
theorem extend_eq {width high low n : Nat} (hlow : n % turn width = low % turn width)
    (hbelow : high ≤ n + turn width / 2) (habove : n < high + (turn width + 1) / 2) :
    extend width (some high) low = n := by
  have hdvd : (turn width : Int) ∣ n - low :=
    Int.dvd_of_emod_eq_zero (Int.emod_eq_emod_iff_emod_sub_eq_zero.mp (by exact_mod_cast hlow))
  have hstep : Int.bmod (low - high) (turn width) = (n : Int) - high := by
    refine (Int.bmod_eq_iff (turn_pos width)).mpr ⟨by omega, by omega, ?_⟩
    rwa [show (n : Int) - high - (low - high) = n - low by omega]
  simp only [extend, hstep]
  omega

end MediaRelay.Serial

namespace MediaRelay.FrameHistory

structure Grounded (h : FrameHistory) : Prop where
  /-- Frame numbers start one turn in, so that numbers from before the first have a place. -/
  turned : ∀ n, h.highest = some n → Serial.turn 16 ≤ n
  /-- A frame that is remembered was seen. -/
  seen : ∀ place frame, h.places.get? place = some frame →
    ∃ n, h.highest = some n ∧ frame.number ≤ n

theorem grounded_empty : empty.Grounded := ⟨nofun, nofun⟩

/-- The history after a number was seen, whether or not its frame is remembered. -/
def withNumber (h : FrameHistory) (number : Nat) : FrameHistory :=
  { h with highest := some (Serial.raise h.highest number) }

/-- The history with a frame in its place. -/
def withFrame (h : FrameHistory) (number : Nat) (layer : Layer) : FrameHistory :=
  { places := h.places.insert (number % span) ⟨number, layer⟩
    highest := some (Serial.raise h.highest number) }

namespace Grounded

variable {h : FrameHistory}

theorem withNumber (hg : h.Grounded) (low : Nat) :
    (h.withNumber (Serial.extend 16 h.highest low)).Grounded := by
  refine ⟨fun n hn => ?_, fun place frame hframe => ?_⟩
  · cases hn
    cases hh : h.highest with
    | none => simp only [Serial.raise, Serial.extend]; omega
    | some high =>
      have := hg.turned high hh
      simp only [Serial.raise, Option.getD_some]
      omega
  · obtain ⟨n, hn, hle⟩ := hg.seen place frame hframe
    refine ⟨_, rfl, Nat.le_trans hle ?_⟩
    simp only [Serial.raise, hn, Option.getD_some]
    exact Nat.le_max_right _ _

theorem withFrame (hg : h.Grounded) (low : Nat) (layer : Layer) :
    (h.withFrame (Serial.extend 16 h.highest low) layer).Grounded := by
  have hnumber := hg.withNumber low
  refine ⟨hnumber.turned, fun place frame hframe => ?_⟩
  by_cases hplace : place = Serial.extend 16 h.highest low % span
  · rw [hplace, FrameHistory.withFrame, Table.get?_insert_self] at hframe
    cases hframe
    exact ⟨_, rfl, Nat.le_max_left _ _⟩
  · rw [FrameHistory.withFrame, Table.get?_insert_of_ne _ _ hplace] at hframe
    exact hnumber.seen place frame hframe

theorem observe (hg : h.Grounded) (layer : Layer) (d : Descriptor) (g : LayerGraph) :
    (h.observe layer d g).1.Grounded := by
  unfold FrameHistory.observe
  split
  · exact hg
  · simp only
    split
    · split
      · exact hg.withNumber _
      · exact hg.withNumber _
    · exact hg.withFrame _ _

/-- The number of a frame that is remembered is no news. -/
theorem withNumber_eq_self (hg : h.Grounded) {place : Nat} {frame : Frame}
    (hframe : h.places.get? place = some frame) : h.withNumber frame.number = h := by
  obtain ⟨n, hn, hle⟩ := hg.seen place frame hframe
  rw [FrameHistory.withNumber, Serial.raise, hn, Option.getD_some, Nat.max_eq_right hle, ← hn]

/-- A packet that contradicts the history leaves it as it was. -/
theorem observe_error (hg : h.Grounded) {layer : Layer} {d : Descriptor} {g : LayerGraph}
    {h' : FrameHistory} {fault : Fault} (herr : h.observe layer d g = (h', .error fault)) :
    h' = h := by
  unfold FrameHistory.observe at herr
  split at herr
  · cases herr
    rfl
  · simp only at herr
    split at herr
    · rename_i frame hremembered
      obtain ⟨hframe, hnumber⟩ := Option.filter_eq_some_iff.mp hremembered
      split at herr
      · cases herr
      · cases herr
        rw [← beq_iff_eq.mp hnumber]
        exact hg.withNumber_eq_self hframe
    · cases herr

end Grounded

theorem layerOf?_withFrame_self (h : FrameHistory) (number : Nat) (layer : Layer) :
    (h.withFrame number layer).layerOf? number = some layer := by
  simp [withFrame, layerOf?, at?, Option.filter]

theorem layerOf?_withFrame_of_ne (h : FrameHistory) {number other : Nat} (layer : Layer)
    (hne : other % span ≠ number % span) :
    (h.withFrame number layer).layerOf? other = h.layerOf? other := by
  simp only [withFrame, layerOf?, at?]
  rw [Table.get?_insert_of_ne _ _ hne]

/-- The number of a packet's frame. -/
def numberOf (h : FrameHistory) (d : Descriptor) : Nat :=
  Serial.extend 16 h.highest d.frameNumber.toNat

theorem observe_ok {h h' : FrameHistory} {layer : Layer} {d : Descriptor} {g : LayerGraph}
    {seen : Sighting} (hok : h.observe layer d g = (h', .ok seen)) :
    ∃ ds, diffs g layer d = .ok ds ∧
      seen = sighting (h.numberOf d) layer d.startOfFrame ds := by
  unfold observe at hok
  cases hd : diffs g layer d with
  | error fault => simp [hd] at hok
  | ok ds =>
    simp only [hd] at hok
    split at hok
    · split at hok
      · cases hok
        exact ⟨ds, rfl, rfl⟩
      · cases hok
    · cases hok
      exact ⟨ds, rfl, rfl⟩

/-- A packet of a frame not remembered is noted. -/
theorem observe_new {h : FrameHistory} {layer : Layer} {d : Descriptor} {g : LayerGraph}
    {ds : List UInt16} (hd : diffs g layer d = .ok ds) (hnew : h.layerOf? (h.numberOf d) = none) :
    h.observe layer d g =
      (h.withFrame (h.numberOf d) layer,
        .ok (sighting (h.numberOf d) layer d.startOfFrame ds)) := by
  have hplace : (h.at? (h.numberOf d)).filter (·.number == h.numberOf d) = none := by
    simpa [layerOf?] using hnew
  unfold observe
  simp only [hd]
  have hat : FrameHistory.at? { h with highest := some (Serial.raise h.highest (h.numberOf d)) }
      (h.numberOf d) = h.at? (h.numberOf d) := rfl
  rw [show Serial.extend 16 h.highest d.frameNumber.toNat = h.numberOf d from rfl, hat, hplace]
  rfl

/-- A switch point starts a frame. Who has nothing yet starts with a frame without references that
is within the target; who has a layer with a frame of the target's spatial index. -/
theorem isSwitchPoint_start {h : FrameHistory} {number : Nat} {layer target : Layer} {start : Bool}
    {ds : List UInt16} {current : Option Layer}
    (hp : h.isSwitchPoint (sighting number layer start ds) current target) :
    start ∧ (current = none → ds = [] ∧ layer.fitsWithin target) ∧
      (current ≠ none → layer.spatial = target.spatial) := by
  unfold isSwitchPoint at hp
  split at hp
  · cases hp
  · rename_i hgate
    simp only [sighting, Bool.or_eq_true, Bool.not_eq_true', not_or, Bool.not_eq_false,
      Bool.not_eq_true] at hgate
    obtain ⟨hstart, hresolved⟩ := hgate
    cases current with
    | some current =>
      exact ⟨hstart, nofun, fun _ => beq_iff_eq.mp (Bool.and_eq_true_iff.mp hp).1⟩
    | none =>
      obtain ⟨hempty, hfits⟩ := Bool.and_eq_true_iff.mp hp
      refine ⟨hstart, fun _ => ⟨?_, hfits⟩, fun h => absurd rfl h⟩
      have hkept : ds.filter (·.toNat ≤ number) = ds := by
        refine List.filter_eq_self.mpr fun diff hdiff => ?_
        have := List.any_eq_false.mp hresolved diff hdiff
        simp only [decide_eq_true_eq] at this ⊢
        omega
      simpa [sighting, hkept] using hempty

end MediaRelay.FrameHistory
