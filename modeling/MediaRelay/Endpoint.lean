import MediaRelay.Text.Digit

/-!
Return addresses of participants: an internet address of either version and the number of a service
there, with their usual text. The longest run of zero groups in a long address is written `::`.
-/

namespace MediaRelay

inductive Address
  | v4 (a b c d : UInt8)
  /-- Eight groups, and the scope in which the address holds (zero for none). -/
  | v6 (groups : List UInt16) (scope : UInt32)
  deriving DecidableEq, Repr

structure Endpoint where
  address : Address
  service : UInt16
  deriving DecidableEq, Repr

namespace Endpoint

open Text (digit? value)

/-- A number below `bound` in at most `width` digits, and the text after it. -/
def number? (base width bound : Nat) (zeroFirst : Bool) (cs : List Char) :
    Option (Nat × List Char) :=
  let digits := cs.takeWhile fun c => (digit? base c).isSome
  if digits.isEmpty || digits.length > width then none
  else if !zeroFirst && digits.length > 1 && digits.head? == some '0' then none
  else if value base digits < bound then some (value base digits, cs.drop digits.length)
  else none

/-- The text after an expected character. -/
def skip? (c : Char) : List Char → Option (List Char)
  | x :: rest => if x = c then some rest else none
  | [] => none

def octets? (cs : List Char) : Option (List UInt8 × List Char) := do
  let (a, cs) ← number? 10 3 256 false cs
  let (b, cs) ← number? 10 3 256 false (← skip? '.' cs)
  let (c, cs) ← number? 10 3 256 false (← skip? '.' cs)
  let (d, cs) ← number? 10 3 256 false (← skip? '.' cs)
  return ([a, b, c, d].map .ofNat, cs)

def pair (a b : UInt8) : UInt16 := .ofNat (a.toNat * 256 + b.toNat)

/-- Up to `limit` groups with colons between them. A short address may stand for the last two; the
flag says that it did. -/
def groups (limit : Nat) (first : Bool) (cs : List Char) : List UInt16 × Bool × List Char :=
  match limit with
  | 0 => ([], false, cs)
  | limit + 1 =>
    let start := if first then some cs else skip? ':' cs
    match (if limit = 0 then none else start.bind octets?) with
    | some ([a, b, c, d], rest) => ([pair a b, pair c d], true, rest)
    | _ =>
      match start.bind (number? 16 4 65536 true) with
      | some (g, rest) =>
        let (gs, short, rest) := groups limit false rest
        (.ofNat g :: gs, short, rest)
      | none => ([], false, cs)

def longAddress? (cs : List Char) : Option (List UInt16 × List Char) := do
  let (head, short, cs) := groups 8 true cs
  if head.length = 8 then return (head, cs)
  if short then none
  let cs ← skip? ':' (← skip? ':' cs)
  let (tail, _, cs) := groups (7 - head.length) true cs
  return (head ++ List.replicate (8 - head.length - tail.length) 0 ++ tail, cs)

/-- The endpoint at an address, from the text after it. -/
def service? (address : Address) (cs : List Char) : Option Endpoint := do
  let (service, rest) ← number? 10 cs.length 65536 true (← skip? ':' cs)
  if rest.isEmpty then some { address, service := .ofNat service } else none

def ofText? (s : String) : Option Endpoint :=
  match octets? s.toList with
  | some ([a, b, c, d], rest) => service? (.v4 a b c d) rest
  | _ => do
    let (groups, cs) ← longAddress? (← skip? '[' s.toList)
    match cs with
    | '%' :: cs =>
      let (scope, cs) ← number? 10 cs.length 0x100000000 true cs
      service? (.v6 groups (.ofNat scope)) (← skip? ']' cs)
    | cs => service? (.v6 groups 0) (← skip? ']' cs)

def hex (g : UInt16) : String := String.ofList (Nat.toDigits 16 g.toNat)

/-- Length of the run of zeros at the front. -/
def zeros (gs : List UInt16) : Nat := (gs.takeWhile (· == 0)).length

/-- Where the first of the longest runs of zeros begins, and its length. -/
def longestZeros (gs : List UInt16) : Nat × Nat :=
  (List.range gs.length).foldl (fun best i =>
    let n := zeros (gs.drop i)
    if n > best.2 then (i, n) else best) (0, 0)

def groupsText : List UInt16 → String
  | [0, 0, 0, 0, 0, 0xFFFF, g, h] =>
    s!"::ffff:{g.toNat / 256}.{g.toNat % 256}.{h.toNat / 256}.{h.toNat % 256}"
  | gs =>
    let (start, length) := longestZeros gs
    let joined := fun (gs : List UInt16) => ":".intercalate (gs.map hex)
    if length > 1 then s!"{joined (gs.take start)}::{joined (gs.drop (start + length))}"
    else joined gs

def text (e : Endpoint) : String :=
  match e.address with
  | .v4 a b c d => s!"{a}.{b}.{c}.{d}:{e.service}"
  | .v6 groups scope =>
    let scope := if scope == 0 then "" else s!"%{scope}"
    s!"[{groupsText groups}{scope}]:{e.service}"

end Endpoint

end MediaRelay
