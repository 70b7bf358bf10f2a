import MediaRelay.Proofs.Estimate

/-!
Clocks that started elsewhere. Packets are sent on one clock and arrive on another, and neither has
an origin that means anything. The bursts of shifted packets are the shifted bursts, and no delay
between bursts changes; so an estimator ends in the same state (`Estimator.ingest_shift`), also when
the origins change from report to report (`Estimator.run_alike`).
-/

namespace MediaRelay

namespace Delivery

/-- The same packet, on clocks that show `a` and `b` more. -/
def shift (a b : Int) (d : Delivery) : Delivery :=
  { d with sent := d.sent + a, arrival := d.arrival.map (· + b) }

/-- When the packet was sent and when it arrived, if it did. -/
def times? (d : Delivery) : Option (Int × Int) := d.arrival.map (d.sent, ·)

/-- The second packet did as the first on clocks that show `a` and `b` more. When a lost packet was
sent does not count. -/
def Alike (a b : Int) (d d' : Delivery) : Prop :=
  d'.times? = d.times?.map fun t => (t.1 + a, t.2 + b)

theorem alike_shift (a b : Int) (d : Delivery) : d.Alike a b (d.shift a b) := by
  cases h : d.arrival <;> simp [Alike, times?, shift, h]

theorem Alike.isNone_eq {a b : Int} {d d' : Delivery} (h : d.Alike a b d') :
    d'.arrival.isNone = d.arrival.isNone := by
  simpa [Alike, times?] using congrArg Option.isNone h

end Delivery

namespace Burst

def shift (a b : Int) (burst : Burst) : Burst :=
  ⟨burst.firstSent + a, burst.lastSent + a, burst.lastArrival + b⟩

variable {a b : Int}

theorem add_alike {d d' : Delivery} (h : d.Alike a b d') (bursts : List Burst) :
    add (bursts.map (shift a b)) d' = (add bursts d).map (shift a b) := by
  obtain ⟨sequence, sent, arrival, size⟩ := d
  obtain ⟨sequence', sent', arrival', size'⟩ := d'
  cases arrival with
  | none =>
    cases arrival' with
    | none => rfl
    | some => cases h
  | some time =>
    cases arrival' with
    | none => cases h
    | some time' =>
      obtain ⟨rfl, rfl⟩ : sent' = sent + a ∧ time' = time + b := by
        simpa [Delivery.Alike, Delivery.times?] using h
      cases bursts with
      | nil => rfl
      | cons burst rest =>
        have hdistance : sent + a - (burst.firstSent + a) = sent - burst.firstSent := by omega
        have hsent : max (burst.lastSent + a) (sent + a) = max burst.lastSent sent + a := by omega
        have harrival : max (burst.lastArrival + b) (time + b) = max burst.lastArrival time + b := by
          omega
        simp only [add, List.map_cons, shift, hdistance, hsent, harrival]
        split <;> rfl

theorem foldl_add_alike {ds ds' : List Delivery} (h : List.Forall₂ (Delivery.Alike a b) ds ds')
    (bursts : List Burst) :
    ds'.foldl add (bursts.map (shift a b)) = (ds.foldl add bursts).map (shift a b) := by
  induction h generalizing bursts with
  | nil => rfl
  | cons hd _ ih => rw [List.foldl_cons, List.foldl_cons, add_alike hd, ih]

theorem delays_shift (bursts : List Burst) : delays (bursts.map (shift a b)) = delays bursts := by
  have hdelay (x y : Burst) : delay (x.shift a b) (y.shift a b) = delay x y := by
    simp only [delay, shift]
    omega
  simp only [delays, ← List.map_tail, List.zipWith_map, hdelay]

theorem delays_alike {ds ds' : List Delivery} (h : List.Forall₂ (Delivery.Alike a b) ds ds') :
    delays (ofDeliveries ds') = delays (ofDeliveries ds) := by
  have hbursts : ofDeliveries ds' = (ofDeliveries ds).map (shift a b) := by
    rw [ofDeliveries, ofDeliveries, List.map_reverse, ← foldl_add_alike h]
    rfl
  rw [hbursts, delays_shift]

end Burst

namespace Estimator

open Arithmetic

variable {F : Type} [Arithmetic F] {a b : Int}

theorem lossOf_alike {ds ds' : List Delivery} (h : List.Forall₂ (Delivery.Alike a b) ds ds') :
    (lossOf ds' : F) = lossOf ds := by
  have hlost : (ds'.filter (·.arrival.isNone)).length = (ds.filter (·.arrival.isNone)).length := by
    induction h with
    | nil => rfl
    | cons hd _ ih => simp only [List.filter_cons, hd.isNone_eq]; split <;> simp [ih]
  rw [lossOf, lossOf, hlost, h.length_eq]

/-- Of the times in a report only the differences on each clock count. -/
theorem ingest_alike (e : Estimator F) {ds ds' : List Delivery}
    (h : List.Forall₂ (Delivery.Alike a b) ds ds') (now : Time) :
    e.ingest ds' now = e.ingest ds now := by
  have hempty : ds'.isEmpty = ds.isEmpty := by cases h <;> rfl
  have hgradient : (gradient? ds' : Option F) = gradient? ds := by
    rw [gradient?, gradient?, Burst.delays_alike h]
  simp only [ingest, hempty, hgradient, lossOf_alike h]

/-- The same is said of the packets, on clocks with other origins. -/
inductive Input.Alike : Input → Input → Prop
  | report {a b : Int} {ds ds' : List Delivery} (h : List.Forall₂ (Delivery.Alike a b) ds ds') :
    Alike (.report ds) (.report ds')
  | rate (bps : Nat) : Alike (.rate bps) (.rate bps)
  | tick : Alike .tick .tick

theorem step_alike (e : Estimator F) {input input' : Input} (h : input.Alike input') (now : Time) :
    e.step now input' = e.step now input := by
  cases h with
  | report h => exact e.ingest_alike h now
  | rate | tick => rfl

/-- An estimator keeps no time of either clock from one report to the next. -/
theorem run_alike (e : Estimator F) {inputs inputs' : List (Time × Input)}
    (h : List.Forall₂ (fun x y => y.1 = x.1 ∧ x.2.Alike y.2) inputs inputs') :
    e.run inputs' = e.run inputs := by
  induction h generalizing e with
  | nil => rfl
  | @cons x y _ _ hxy _ ih =>
    obtain ⟨now, input⟩ := x
    obtain ⟨now', input'⟩ := y
    obtain ⟨rfl, halike⟩ := hxy
    rw [run, run, step_alike e halike, ih]

/-- A report on shifted clocks leaves the same estimator behind: the estimate, the usage and the
trend, whatever the arithmetic. -/
theorem ingest_shift (e : Estimator F) (ds : List Delivery) (a b : Int) (now : Time) :
    e.ingest (ds.map (.shift a b)) now = e.ingest ds now :=
  e.ingest_alike (List.forall₂_map_right_iff.mpr (List.forall₂_same.mpr fun d _ => d.alike_shift a b))
    now

end Estimator

end MediaRelay
