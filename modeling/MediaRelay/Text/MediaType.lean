/-!
Media types in a content type header: a type, a subtype with an optional suffix after a plus sign, and
parameters with plain or quoted values.
-/

namespace MediaRelay.Text.MediaType

/-- Characters of names. -/
def isToken (c : Char) : Bool :=
  c.isAlphanum || "!#$%&+-.^_|~".toList.contains c || c.toNat = 39 || c.toNat = 42 || c.toNat = 96

/-- Characters of quoted values. -/
def isQuotable (c : Char) : Bool := c.toNat > 31 && c.toNat < 127

/-- The state of reading parameters. -/
inductive Place
  /-- Before a name, where spaces may stand. -/
  | start
  | name
  | valueStart
  | value
  | quotedStart
  | quoted
  | afterQuoted
  deriving DecidableEq

/-- The place after one more character, if it may stand there. -/
def next? (p : Place) (c : Char) : Option Place :=
  match p with
  | .start => if c = ' ' then some .start else if isToken c then some .name else none
  | .name => if c = '=' then some .valueStart else if isToken c then some .name else none
  | .valueStart => if c = '"' then some .quotedStart else if isToken c then some .value else none
  | .value => if c = ';' then some .start else if isToken c then some .value else none
  | .quotedStart => if isQuotable c then some .quoted else none
  | .quoted => if c = '"' then some .afterQuoted else if isQuotable c then some .quoted else none
  | .afterQuoted =>
    if c = ';' then some .start else if c = ' ' then some .afterQuoted else none

/-- Whether parameters may end here. -/
def isEnd : Place → Bool
  | .start | .valueStart | .value | .afterQuoted => true
  | .name | .quotedStart | .quoted => false

def validParameters (cs : List Char) : Bool := (cs.foldlM next? Place.start).any isEnd

/-- Type and subtype in small letters, if the text is a media type. -/
def names? (s : String) : Option (List Char × List Char) :=
  let cs := s.toList
  let top := cs.takeWhile isToken
  match cs.dropWhile isToken with
  | '/' :: rest =>
    let sub := rest.takeWhile isToken
    let valid := match rest.dropWhile isToken with
      | [] => true
      | ';' :: parameters => !sub.isEmpty && validParameters parameters
      | _ => false
    if top.isEmpty || !valid then none else some (top.map Char.toLower, sub.map Char.toLower)
  | _ => none

/-- The part of a subtype before its last plus sign, unless that is the first character, and the part
after it. -/
def splitSuffix (sub : List Char) : List Char × Option (List Char) :=
  match sub with
  | [] => ([], none)
  | first :: rest =>
    if rest.contains '+' then
      let suffix := (rest.reverse.takeWhile (· ≠ '+')).reverse
      (first :: rest.take (rest.length - suffix.length - 1), some suffix)
    else (sub, none)

/-- Whether a content type announces JSON. -/
def isJson (s : String) : Bool :=
  match names? s with
  | none => false
  | some (top, sub) =>
    let (base, suffix) := splitSuffix sub
    top == "application".toList && (base == "json".toList || suffix == some "json".toList)

end MediaRelay.Text.MediaType
