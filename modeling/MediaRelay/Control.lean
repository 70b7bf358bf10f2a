import MediaRelay.Census
import MediaRelay.Event.Reading
import MediaRelay.Text.MediaType

/-!
The control API: health and statistics to read, and signaling events to post. Requests are answered
by a status and, where there is something to say, a document.
-/

namespace MediaRelay.Control

variable {F : Type} [Arithmetic F]

structure Request where
  method : String
  /-- A path with its query, if there is one, or a full address that holds them behind its host. -/
  target : String
  contentType : Option String
  body : String

structure Response where
  status : Nat
  body : Option Document

def empty (status : Nat) : Response := ⟨status, none⟩

def refused (r : Refusal) : Response := ⟨r.status, some r.document⟩

inductive Resource
  | health
  | signaling
  | stats
  /-- The number as it stands in the path. -/
  | room (number : List Char)
  deriving DecidableEq

/-- What follows the scheme and the host of a full address. -/
def afterHost : List Char → List Char
  | ':' :: '/' :: '/' :: rest => rest.dropWhile fun c => c ≠ '/' && c ≠ '?' && c ≠ '#'
  | _ :: rest => afterHost rest
  | [] => []

/-- The path in a request's target. -/
def pathOf (target : List Char) : List Char :=
  (if target.head? == some '/' then target else afterHost target).takeWhile fun c =>
    c ≠ '?' && c ≠ '#'

/-- The resource that a target names, if there is one. -/
def resource? (target : String) : Option Resource :=
  let cs := pathOf target.toList
  if cs = "/health".toList then some .health
  else if cs = "/signaling".toList then some .signaling
  else if cs = "/stats".toList then some .stats
  else
    let root := "/rooms/".toList
    if root.isPrefixOf cs then
      let number := cs.drop root.length
      if number.isEmpty || number.contains '/' then none else some (.room number)
    else none

/-- The bytes of a path with its percent escapes read; a percent sign without two digits stands for
itself. -/
def percentDecode : List UInt8 → List UInt8
  | 37 :: a :: b :: rest =>
    match Text.digit? 16 (Char.ofNat a.toNat), Text.digit? 16 (Char.ofNat b.toNat) with
    | some x, some y => .ofNat (x * 16 + y) :: percentDecode rest
    | _, _ => 37 :: percentDecode (a :: b :: rest)
  | b :: rest => b :: percentDecode rest
  | [] => []
termination_by b => b.length

/-- The room that a path names. -/
def roomOf? (number : List Char) : Option RoomId := do
  let bytes := percentDecode (String.ofList number).toUTF8.toList
  let text ← String.fromUTF8? ⟨bytes.toArray⟩
  let n ← (Text.whole 0xFFFFFFFF text.toList).toOption
  return ⟨.ofNat n⟩

def health (r : Relay F) : Response :=
  ⟨200, some (.record [("status", .text "ok"), ("rooms", .nat r.directory.rooms.size)])⟩

def roomStats (r : Relay F) (number : List Char) : Response :=
  match roomOf? number with
  | none => empty 400
  | some id =>
    match r.roomCensus id with
    | .ok census => ⟨200, some census.document⟩
    | .error refusal => refused refusal

def post (r : Relay F) (request : Request) (now : Time) : Relay F × Response :=
  if !request.contentType.any Text.MediaType.isJson then (r, empty 415)
  else match Event.read request.body with
    | .error .malformed => (r, empty 400)
    | .error .invalid => (r, empty 422)
    | .ok event =>
      match r.apply event now with
      | (r, .ok ()) => (r, empty 204)
      | (r, .error refusal) => (r, refused refusal)

/-- The answer to reading a resource; asking for the head only leaves the document out. -/
def read (r : Relay F) (resource : Resource) (method : String) : Response :=
  let response := match resource with
    | .health => health r
    | .stats => ⟨200, some r.census.document⟩
    | .room number => roomStats r number
    | .signaling => empty 405
  if method = "GET" then response
  else if method = "HEAD" then empty response.status
  else empty 405

def handle (r : Relay F) (request : Request) (now : Time) : Relay F × Response :=
  match resource? request.target with
  | none => (r, empty 404)
  | some .signaling =>
    if request.method = "POST" then post r request now else (r, empty 405)
  | some resource => (r, read r resource request.method)

end MediaRelay.Control
