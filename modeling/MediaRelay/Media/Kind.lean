import MediaRelay.Text.Blank
import MediaRelay.Text.Digit

/-!
Kinds of media streams, and sets of kinds in their text form: names joined by `|`, with bits that
have no name written in base sixteen.
-/

namespace MediaRelay

inductive Kind
  | audio
  | video
  | screen
  deriving DecidableEq, Repr, Inhabited

namespace Kind

def all : List Kind := [.audio, .video, .screen]

def code : Kind → UInt8
  | .audio => 0
  | .video => 1
  | .screen => 2

def ofCode? : UInt8 → Option Kind
  | 0 => some .audio
  | 1 => some .video
  | 2 => some .screen
  | _ => none

def name : Kind → String
  | .audio => "audio"
  | .video => "video"
  | .screen => "screen"

def ofName? (s : String) : Option Kind := all.find? (·.name == s)

/-- Streams of these kinds are sent in layers. -/
def isLayered : Kind → Bool
  | .audio => false
  | .video | .screen => true

theorem ofCode?_code (k : Kind) : ofCode? k.code = some k := by cases k <;> rfl

theorem ofName?_name (k : Kind) : ofName? k.name = some k := by cases k <;> decide

end Kind

/-- A set of kinds; bits beyond the three kinds are kept and mean nothing. -/
structure KindSet where
  bits : UInt8
  deriving DecidableEq, Repr

namespace KindSet

def none : KindSet := ⟨0⟩

def all : KindSet := ⟨7⟩

def ofKind : Kind → KindSet
  | .audio => ⟨1⟩
  | .video => ⟨2⟩
  | .screen => ⟨4⟩

def union (s t : KindSet) : KindSet := ⟨s.bits ||| t.bits⟩

def allows (s : KindSet) (k : Kind) : Bool := s.bits &&& (ofKind k).bits == (ofKind k).bits

def kinds (s : KindSet) : List Kind := Kind.all.filter s.allows

def word : Kind → String
  | .audio => "AUDIO"
  | .video => "VIDEO"
  | .screen => "SCREEN"

/-- An octet in base sixteen: any number of digits, at least one, after an optional plus sign. -/
def hexOctet? (cs : List Char) : Option UInt8 :=
  let digits := match cs with
    | '+' :: rest => rest
    | cs => cs
  if digits.isEmpty || !digits.all fun c => (Text.digit? 16 c).isSome then Option.none
  else if Text.value 16 digits < 256 then some (UInt8.ofNat (Text.value 16 digits))
  else Option.none

/-- One part between bars. -/
def part? (cs : List Char) : Option KindSet :=
  match Text.trim cs with
  | '0' :: 'x' :: digits => (hexOctet? digits).map KindSet.mk
  | cs => (Kind.all.find? fun k => (word k).toList == cs).map ofKind

/-- The parts of a text between its bars. -/
def parts : List Char → List (List Char)
  | [] => [[]]
  | c :: cs =>
    if c = '|' then [] :: parts cs
    else match parts cs with
      | p :: ps => (c :: p) :: ps
      | [] => [[c]]

/-- Reads a set of kinds. Blank text is the empty set; an empty part is refused. -/
def ofText? (s : String) : Option KindSet :=
  if (Text.trim s.toList).isEmpty then some none
  else (parts s.toList).foldlM (fun set cs => (part? cs).map set.union) none

def octetText (b : UInt8) : String := "0x" ++ String.ofList (Nat.toDigits 16 b.toNat)

/-- Names in order, then the bits without a name. -/
def text (s : KindSet) : String :=
  let rest := s.bits &&& ~~~all.bits
  " | ".intercalate (s.kinds.map word ++ if rest == 0 then [] else [octetText rest])

end KindSet

end MediaRelay
