import MediaRelay.Document.Basic
import MediaRelay.Document.Numeral

/-!
Reading JSON documents. The grammar is the standard one; containers nest up to a depth, escapes for
half a surrogate pair stand only together with the other half, and a number must be in range.
-/

namespace MediaRelay.Document

open Text (digit? value)

def skipBlank (cs : List Char) : List Char :=
  cs.dropWhile fun c => c = ' ' || c = '\t' || c = '\n' || c = '\r'

/-- Four digits of base sixteen. -/
def codeUnit? (a b c d : Char) : Option Nat := do
  return (← digit? 16 a) * 4096 + (← digit? 16 b) * 256 + (← digit? 16 c) * 16 + (← digit? 16 d)

def isHighSurrogate (n : Nat) : Bool := 0xD800 ≤ n && n < 0xDC00

def isLowSurrogate (n : Nat) : Bool := 0xDC00 ≤ n && n < 0xE000

/-- The character of an escape with one letter. -/
def escaped? : Char → Option Char
  | '"' => some '"'
  | '\\' => some '\\'
  | '/' => some '/'
  | 'b' => some (Char.ofNat 8)
  | 'f' => some (Char.ofNat 12)
  | 'n' => some '\n'
  | 'r' => some '\r'
  | 't' => some '\t'
  | _ => none

/-- A text after its opening quote, and what follows it. The characters read so far are in reverse;
`high` is the first half of a pair that waits for the second. -/
def textRest? (high : Option Nat) (read : List Char) : List Char → Option (String × List Char)
  | '\\' :: 'u' :: a :: b :: c :: d :: rest =>
    match high, codeUnit? a b c d with
    | _, none => none
    | some high, some low =>
      if isLowSurrogate low then
        textRest? none (Char.ofNat (0x10000 + (high - 0xD800) * 0x400 + (low - 0xDC00)) :: read) rest
      else none
    | none, some n =>
      if isHighSurrogate n then textRest? (some n) read rest
      else if isLowSurrogate n then none
      else textRest? none (Char.ofNat n :: read) rest
  | '\\' :: e :: rest =>
    match high, escaped? e with
    | none, some c => textRest? none (c :: read) rest
    | _, _ => none
  | c :: rest =>
    if high.isSome || c.toNat < 32 then none
    else if c = '"' then some (String.ofList read.reverse, rest)
    else textRest? none (c :: read) rest
  | [] => none

/-- A number. Integers that fit 64 bits, signed or unsigned, keep their value; a zero with a minus sign
is none of them. -/
def ofNumeral (n : Numeral) : Document :=
  let size : Int := value 10 n.whole
  let number := if n.negative then -size else size
  if n.isWhole ∧ -0x8000000000000000 ≤ number ∧ number ≤ 0xFFFFFFFFFFFFFFFF ∧
      (n.negative → size ≠ 0) then
    .integer number
  else .otherNumber

def number? (cs : List Char) : Option (Document × List Char) := do
  let (n, rest) ← Numeral.read? cs
  if !(Decimal.ofNumeral n).isInRange then none
  return (ofNumeral n, rest)

/-- The text after a word. -/
def word? (word : String) (cs : List Char) : Option (List Char) :=
  if word.toList.isPrefixOf cs then some (cs.drop word.length) else none

/-- A document that is no container. -/
def scalar? (cs : List Char) : Option (Document × List Char) :=
  match cs with
  | '"' :: rest => (textRest? none [] rest).map fun (s, rest) => (.text s, rest)
  | 'n' :: _ => (word? "null" cs).map fun rest => (.null, rest)
  | 't' :: _ => (word? "true" cs).map fun rest => (.bool true, rest)
  | 'f' :: _ => (word? "false" cs).map fun rest => (.bool false, rest)
  | cs => number? cs

/-- The text after a comma, or all of it at the first item. -/
def separator? (first : Bool) (cs : List Char) : Option (List Char) :=
  match first, cs with
  | true, cs => some cs
  | false, ',' :: rest => some rest
  | false, _ => none

/-- The name of a field and the text after its colon. -/
def fieldName? (cs : List Char) : Option (String × List Char) :=
  match skipBlank cs with
  | '"' :: rest => do
    let (name, rest) ← textRest? none [] rest
    match skipBlank rest with
    | ':' :: rest => some (name, rest)
    | _ => none
  | _ => none

mutual

/-- A document at the front of a text, with at most `depth` containers in each other. -/
def read? : Nat → Nat → List Char → Option (Document × List Char)
  | 0, _, _ => none
  | fuel + 1, depth, cs =>
    match skipBlank cs, depth with
    | '[' :: _, 0 | '\x7b' :: _, 0 => none
    | '[' :: rest, depth + 1 =>
      (readItems? fuel depth true rest).map fun (items, rest) => (.list items, rest)
    | '\x7b' :: rest, depth + 1 =>
      (readFields? fuel depth true rest).map fun (fields, rest) => (.record fields, rest)
    | cs, _ => scalar? cs

/-- The items of a list up to its closing bracket. -/
def readItems? : Nat → Nat → Bool → List Char → Option (List Document × List Char)
  | 0, _, _, _ => none
  | fuel + 1, depth, first, cs =>
    match skipBlank cs with
    | ']' :: rest => some ([], rest)
    | cs => do
      let (item, rest) ← read? fuel depth (← separator? first cs)
      let (items, rest) ← readItems? fuel depth false rest
      return (item :: items, rest)

/-- The fields of a record up to its closing brace. -/
def readFields? : Nat → Nat → Bool → List Char → Option (List (String × Document) × List Char)
  | 0, _, _, _ => none
  | fuel + 1, depth, first, cs =>
    match skipBlank cs with
    | '\x7d' :: rest => some ([], rest)
    | cs => do
      let (name, rest) ← fieldName? (← separator? first cs)
      let (value, rest) ← read? fuel depth rest
      let (fields, rest) ← readFields? fuel depth false rest
      return ((name, value) :: fields, rest)

end

end MediaRelay.Document
