/-!
Counters that the wire cuts to a fixed width. A number is extended to the one nearest to the highest
seen so far; the first number starts one turn in, so that numbers from just before it have a place.
-/

namespace MediaRelay.Serial

/-- The numbers that `width` bits can hold. -/
def turn (width : Nat) : Nat := 1 <<< width

/-- The full number behind the low `width` bits of one. -/
def extend (width : Nat) (highest : Option Nat) (low : Nat) : Nat :=
  match highest with
  | none => turn width + low
  | some high => (high + Int.bmod (low - high) (turn width)).toNat

/-- The highest number after one more was seen. -/
def raise (highest : Option Nat) (number : Nat) : Nat := max number (highest.getD 0)

/-- A number as a signed 64-bit word reads it. -/
def signed64 (n : Int) : Int := Int.bmod n (turn 64)

end MediaRelay.Serial
