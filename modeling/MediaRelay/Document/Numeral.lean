import MediaRelay.Rounding
import MediaRelay.Text.Number

/-!
Numbers in documents: how they are written, and how large they are. Of its digits a number keeps a
significand of 64 bits; those that find no room there only count as places before the point, and not
at all after it.
-/

namespace MediaRelay.Document

open Text (digit? exponent? isDigit)

/-- A number as it is written: the digits before and after its point, and its exponent. -/
structure Numeral where
  negative : Bool
  whole : List Char
  fraction : List Char
  exponent : Option Int
  deriving DecidableEq, Repr

/-- A significand times a power of ten. -/
structure Decimal where
  significand : Nat
  exponent : Int
  deriving DecidableEq, Repr

namespace Numeral

/-- Digits after a point. -/
def fraction? : List Char → Option (List Char × List Char)
  | '.' :: rest =>
    if (rest.takeWhile isDigit).isEmpty then none
    else some (rest.takeWhile isDigit, rest.dropWhile isDigit)
  | rest => some ([], rest)

/-- The number at the front of a text, and what follows it. -/
def read? (cs : List Char) : Option (Numeral × List Char) := do
  let (negative, cs) := match cs with
    | '-' :: rest => (true, rest)
    | cs => (false, cs)
  let whole := cs.takeWhile isDigit
  if whole.isEmpty || (whole.length > 1 && whole.head? == some '0') then none
  let (fraction, rest) ← fraction? (cs.dropWhile isDigit)
  let (exponent, rest) ← exponent? rest
  return (⟨negative, whole, fraction, exponent⟩, rest)

/-- Whether a number is written without point and exponent. -/
def isWhole (n : Numeral) : Bool := n.fraction.isEmpty && n.exponent.isNone

end Numeral

namespace Decimal

def maxSignificand : Nat := 0xFFFFFFFFFFFFFFFF

/-- Appends digits to a significand as long as there is room, and gives the digits left over. -/
def append (significand : Nat) : List Char → Nat × List Char
  | [] => (significand, [])
  | c :: rest =>
    let longer := significand * 10 + (digit? 10 c).getD 0
    if longer ≤ maxSignificand then append longer rest else (significand, c :: rest)

/-- The size of a number. -/
def ofNumeral (n : Numeral) : Decimal :=
  let (whole, places) := append 0 n.whole
  let (significand, dropped) := append whole n.fraction
  ⟨significand, n.exponent.getD 0 + places.length + dropped.length - n.fraction.length⟩

/-- Whether significand and power of ten, each as a double, have a product that is one. -/
def isInRange (d : Decimal) : Bool :=
  if d.significand = 0 || d.exponent ≤ 0 then true
  else if d.exponent > 308 then false
  else
    let power := Rounding.double (Nat.pow 10 d.exponent.toNat)
    Rounding.double d.significand * power < Rounding.tooLarge

end Decimal

end MediaRelay.Document
