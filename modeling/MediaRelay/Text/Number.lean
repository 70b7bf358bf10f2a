import MediaRelay.Text.Digit

/-!
Numbers in settings. A whole number is digits after an optional plus sign, read from the left until
something is wrong; a double may also have a point, an exponent, or be one of the words for infinity
and for what is not a number.
-/

namespace MediaRelay.Text

inductive NumberFault
  | empty
  | invalidDigit
  | tooLarge
  deriving DecidableEq, Repr

def NumberFault.message : NumberFault → String
  | .empty => "cannot parse integer from empty string"
  | .invalidDigit => "invalid digit found in string"
  | .tooLarge => "number too large to fit in target type"

/-- One more digit, with the number so far not above `max`. -/
def addDigit (max n : Nat) (c : Char) : Except NumberFault Nat :=
  match digit? 10 c with
  | none => .error .invalidDigit
  | some d => if n * 10 + d ≤ max then .ok (n * 10 + d) else .error .tooLarge

/-- A whole number up to `max`. -/
def whole (max : Nat) (cs : List Char) : Except NumberFault Nat :=
  match cs with
  | [] => .error .empty
  | ['+'] => .error .invalidDigit
  | '+' :: digits => digits.foldlM (addDigit max) 0
  | digits => digits.foldlM (addDigit max) 0

/-- The double nearest to `mantissa * 10 ^ exponent`. Far outside the range of doubles the answer is
known without the power. -/
def nearestDouble (mantissa : Nat) (exponent : Int) : Float :=
  let size : Int := (Nat.toDigits 10 mantissa).length + exponent
  if mantissa = 0 || size < -400 then 0
  else if size > 400 then 1 / 0
  else Float.ofScientific mantissa (exponent < 0) exponent.natAbs

/-- An exponent at the front of a text, if there is one, and what follows it. Its mark must have digits
behind it. -/
def exponent? (cs : List Char) : Option (Option Int × List Char) :=
  match cs with
  | e :: rest =>
    if e ≠ 'e' ∧ e ≠ 'E' then some (none, cs)
    else
      let (negative, rest) := match rest with
        | '-' :: rest => (true, rest)
        | '+' :: rest => (false, rest)
        | rest => (false, rest)
      let n : Int := value 10 (rest.takeWhile isDigit)
      if (rest.takeWhile isDigit).isEmpty then none
      else some (some (if negative then -n else n), rest.dropWhile isDigit)
  | [] => some (none, [])

def unsignedDouble? (cs : List Char) : Option Float :=
  match String.ofList (cs.map Char.toLower) with
  | "inf" | "infinity" => some (1 / 0)
  | "nan" => some (0 / 0)
  | _ =>
    let (before, rest) := (cs.takeWhile isDigit, cs.dropWhile isDigit)
    let (after, rest) := match rest with
      | '.' :: rest => (rest.takeWhile isDigit, rest.dropWhile isDigit)
      | rest => ([], rest)
    if before.isEmpty && after.isEmpty then none
    else match exponent? rest with
      | some (exponent, []) =>
        some (nearestDouble (value 10 (before ++ after)) (exponent.getD 0 - after.length))
      | _ => none

def double? (cs : List Char) : Option Float :=
  match cs with
  | '-' :: cs => (unsignedDouble? cs).map (- ·)
  | '+' :: cs => unsignedDouble? cs
  | cs => unsignedDouble? cs

end MediaRelay.Text
