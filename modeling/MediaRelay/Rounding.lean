/-!
Rounding to the nearest, a half going to the even neighbour: quotients to whole numbers, and whole
numbers to the ones that a double can hold.
-/

namespace MediaRelay.Rounding

/-- The whole number nearest to `n / d`. -/
def quotient (n d : Nat) : Nat :=
  let q := n / d
  let r := n % d
  if 2 * r < d then q
  else if d < 2 * r then q + 1
  else q + q % 2

/-- The number with 53 leading bits nearest to `n`. -/
def double (n : Nat) : Nat :=
  let excess := n.log2 - 52
  quotient n (1 <<< excess) <<< excess

/-- Halfway from the largest double to the next power of two. Numbers from here on are too large for
any double. -/
def tooLarge : Nat := 1 <<< 1024 - 1 <<< 970

end MediaRelay.Rounding
