import MediaRelay.Arithmetic
import MediaRelay.Time

/-!
Bandwidth estimation for one path. Packets sent together form a burst; when bursts arrive further
apart than they were sent the path is filling up, and the estimate goes down by a factor. Loss slows
it too, calm lets it grow by a step, and silence lets it decay towards the floor.
-/

namespace MediaRelay

/-- What became of one packet: when it was sent, and when it arrived on the receiver's clock. -/
structure Delivery where
  sequence : UInt32
  sent : Int
  arrival : Option Int
  size : Nat
  deriving DecidableEq, Repr

/-- Packets sent together: first and last sending, last arrival. -/
structure Burst where
  firstSent : Int
  lastSent : Int
  lastArrival : Int
  deriving DecidableEq, Repr

namespace Burst

/-- Microseconds from the first packet of a burst within which others belong to it. -/
def width : Int := 5000

/-- Adds a packet to bursts listed from the newest. -/
def add (bursts : List Burst) (d : Delivery) : List Burst :=
  match d.arrival with
  | none => bursts
  | some arrival =>
    match bursts with
    | b :: rest =>
      if (d.sent - b.firstSent).natAbs ≤ width then
        { b with lastSent := max b.lastSent d.sent, lastArrival := max b.lastArrival arrival } :: rest
      else ⟨d.sent, d.sent, arrival⟩ :: b :: rest
    | [] => [⟨d.sent, d.sent, arrival⟩]

def ofDeliveries (ds : List Delivery) : List Burst := (ds.foldl add []).reverse

/-- By how much more one burst came after another than it was sent after it. -/
def delay (a b : Burst) : Int := (b.lastArrival - a.lastArrival) - (b.lastSent - a.lastSent)

def delays (bursts : List Burst) : List Int := List.zipWith delay bursts bursts.tail

end Burst

inductive Usage
  | normal
  | overusing
  | underusing
  deriving DecidableEq, Repr

def Usage.name : Usage → String
  | .normal => "normal"
  | .overusing => "overusing"
  | .underusing => "underusing"

/-- Rates are in bits per second. -/
structure Estimator.Settings (F : Type) where
  floor : Nat
  ceiling : Nat
  initial : Nat
  increase : Nat
  decreaseFactor : F
  decayFactor : F
  overuseMs : F
  smoothing : F

structure Estimator (F : Type) where
  settings : Estimator.Settings F
  /-- Microseconds without feedback after which the estimate decays. -/
  timeout : Nat
  estimate : Nat
  trendMs : F
  usage : Usage
  lastFeedback : Time

namespace Estimator

open Arithmetic

variable {F : Type} [Arithmetic F]

def Settings.clamp (s : Settings F) (rate : Nat) : Nat :=
  if rate < s.floor then s.floor else if rate > s.ceiling then s.ceiling else rate

/-- The largest rate that a report can name. -/
def maxRate : Nat := 0xFFFFFFFFFFFFFFFF

def start (settings : Settings F) (timeout : Nat) (now : Time) : Estimator F :=
  { settings, timeout
    estimate := settings.clamp settings.initial
    trendMs := ofNat 0
    usage := .normal
    lastFeedback := now }

/-- The mean delay between bursts in milliseconds, if there are two. -/
def gradient? (ds : List Delivery) : Option F :=
  match Burst.delays (Burst.ofDeliveries ds) with
  | [] => none
  | delays => some (sum (delays.map fun d => ofInt d / ofNat 1000) / ofNat delays.length)

def Settings.smooth (s : Settings F) (trend : F) : Option F → F
  | none => trend
  | some gradient => s.smoothing * trend + (ofNat 1 - s.smoothing) * gradient

def Settings.usageOf (s : Settings F) (trend : F) : Usage :=
  if less s.overuseMs trend then .overusing
  else if less trend (-s.overuseMs) then .underusing
  else .normal

def lossOf (ds : List Delivery) : F := ratio (ds.filter (·.arrival.isNone)).length ds.length

/-- The rate after a report: down when the path fills up or more than a tenth is lost, unchanged when
it empties or more than a fiftieth is lost, and up by a step otherwise. -/
def Settings.next (s : Settings F) (estimate : Nat) (usage : Usage) (loss : F) : Nat :=
  if usage = .overusing || less (ratio 1 10) loss then share estimate s.decreaseFactor
  else if usage = .underusing || less (ratio 2 100) loss then estimate
  else min (estimate + s.increase) maxRate

/-- Takes in what became of packets. -/
def ingest (e : Estimator F) (ds : List Delivery) (now : Time) : Estimator F :=
  let e := { e with lastFeedback := now }
  if ds.isEmpty then e
  else
    let trendMs := e.settings.smooth e.trendMs (gradient? ds)
    let usage := e.settings.usageOf trendMs
    let estimate := e.settings.clamp (e.settings.next e.estimate usage (lossOf ds))
    { e with trendMs, usage, estimate }

/-- Takes over the receiver's own estimate. -/
def adopt (e : Estimator F) (rate : Nat) (now : Time) : Estimator F :=
  { e with lastFeedback := now, estimate := e.settings.clamp rate }

/-- What is above the floor shrinks by the decay factor while feedback is missing. -/
def tick (e : Estimator F) (now : Time) : Estimator F :=
  if Time.since now e.lastFeedback > e.timeout then
    { e with estimate :=
        e.settings.floor + share (e.estimate - e.settings.floor) e.settings.decayFactor }
  else e

end Estimator

end MediaRelay
