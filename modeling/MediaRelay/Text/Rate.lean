import MediaRelay.Rounding

/-!
Rates for the eye: whole kilobits, or megabits with two decimals. The decimals are those of the double
nearest to the number of megabits, rounded from its exact value with a half going to the even
neighbour.
-/

namespace MediaRelay.Text

/-- The exact value of a double that is not negative, as `m * 2 ^ (e - 1075)`. -/
def decompose (x : Float) : Nat × Nat :=
  let bits := x.toBits.toNat
  let m := bits % 0x10000000000000
  let e := bits / 0x10000000000000 % 2048
  if e = 0 then (m, 1) else (m + 0x10000000000000, e)

/-- Hundredths of a double that is not negative. -/
def hundredths (x : Float) : Nat :=
  let (m, e) := decompose x
  if 1075 ≤ e then (m * 100) <<< (e - 1075) else Rounding.quotient (m * 100) (1 <<< (1075 - e))

def twoDecimals (x : Float) : String :=
  let n := hundredths x
  let rest := toString (n % 100)
  s!"{n / 100}." ++ (if n % 100 < 10 then "0" ++ rest else rest)

/-- A rate in bits per second. -/
def rate (bps : Nat) : String :=
  if 1000000 ≤ bps then twoDecimals (bps.toUInt64.toFloat / 1000000) ++ " Mbps"
  else s!"{bps / 1000} kbps"

end MediaRelay.Text
