/-!
The arithmetic in which rates are weighed. The estimator and the layer choice use a handful of
operations on a number type; they run on doubles, and the same definitions can be read over the
rationals.
-/

namespace MediaRelay

class Arithmetic (F : Type) extends Add F, Sub F, Mul F, Div F, Neg F where
  ofInt : Int → F
  /-- The whole part, zero for what is negative or not a number. -/
  whole : F → Nat
  less : F → F → Bool
  atMost : F → F → Bool

namespace Arithmetic

variable {F : Type} [Arithmetic F]

def ofNat (n : Nat) : F := ofInt n

/-- The quotient of two whole numbers. -/
def ratio (n d : Nat) : F := ofNat n / ofNat d

def sum (xs : List F) : F := xs.foldl (· + ·) (ofNat 0)

/-- The share `x` of a rate `a`, without its fraction. -/
def share (a : Nat) (x : F) : Nat := whole (ofNat a * x)

/-- Whether `x` lies in `[0, 1)`. -/
def isFraction (x : F) : Bool := atMost (ofNat 0) x && less x (ofNat 1)

end Arithmetic

/-- Doubles: conversions round to nearest, and the whole part stops at the largest 64-bit number. -/
instance : Arithmetic Float where
  ofInt n := if 0 ≤ n then n.toNat.toUInt64.toFloat else -(-n).toNat.toUInt64.toFloat
  whole x := x.toUInt64.toNat
  less x y := x < y
  atMost x y := x ≤ y

instance : Arithmetic Rat where
  ofInt n := n
  whole x := x.floor.toNat
  less x y := x < y
  atMost x y := x ≤ y

end MediaRelay
