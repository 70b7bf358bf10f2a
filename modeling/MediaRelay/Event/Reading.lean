import MediaRelay.Document.Reader
import MediaRelay.Event.Writing

/-!
Reading signaling events. An event is a record with its tag under `type`, or a list that begins with
the tag and goes on with the fields in order. The text is read from the front, so a tag that names no
event is noticed before anything wrong behind it; the fields are looked at when the document is
complete.
-/

namespace MediaRelay.Event

/-- A text is no JSON document, or a document that is no event. -/
inductive ReadFault
  | malformed
  | invalid
  deriving DecidableEq, Repr

abbrev Fields := List (String × Document)

/-- What a document must give for a field. -/
abbrev Decoder (α : Type) := Document → Option α

namespace Decode

def natUpTo (max : Nat) : Decoder Nat
  | .integer n => if 0 ≤ n ∧ n ≤ max then some n.toNat else none
  | _ => none

def u8 : Decoder UInt8 := fun d => (natUpTo 0xFF d).map .ofNat

def u16 : Decoder UInt16 := fun d => (natUpTo 0xFFFF d).map .ofNat

def u32 : Decoder UInt32 := fun d => (natUpTo 0xFFFFFFFF d).map .ofNat

def u64 : Decoder Nat := natUpTo 0xFFFFFFFFFFFFFFFF

def flag : Decoder Bool
  | .bool b => some b
  | _ => none

def list {α : Type} (item : Decoder α) : Decoder (List α)
  | .list items => items.mapM item
  | _ => none

/-- A word from a fixed choice: a text, or a record with the word as its only field and nothing in
it. -/
def word {α : Type} (ofName? : String → Option α) : Decoder α
  | .text s => ofName? s
  | .record [(s, .null)] | .record [(s, .record [])] => ofName? s
  | _ => none

def participant : Decoder ParticipantId := fun d => (u32 d).map .mk

def kind : Decoder Kind := word Kind.ofName?

def kindSet : Decoder KindSet
  | .text s => KindSet.ofText? s
  | _ => none

end Decode

namespace Fields

/-- A field that may be missing. It must not be repeated. -/
def find? (fields : Fields) (name : String) : Option (Option Document) :=
  match fields.filter (·.1 == name) with
  | [] => some none
  | [(_, d)] => some (some d)
  | _ => none

def required {α : Type} (fields : Fields) (name : String) (decode : Decoder α) : Option α := do
  (← fields.find? name).bind decode

def withDefault {α : Type} (fields : Fields) (name : String) (standard : α) (decode : Decoder α) :
    Option α := do
  match ← fields.find? name with
  | none => some standard
  | some d => decode d

/-- The fields of a record, or of a list that gives them in order. -/
def ofDocument? (names : List String) : Document → Option Fields
  | .record fields => some fields
  | .list items => if items.length ≤ names.length then some (names.zip items) else none
  | _ => none

/-- The fields of a record. -/
def ofRecord? : Document → Option Fields
  | .record fields => some fields
  | _ => none

end Fields

namespace Decode

def role : Decoder Role := fun d => do
  let fields ← Fields.ofDocument? ["send", "receive"] d
  return {
    send := ← fields.withDefault "send" .none kindSet
    receive := ← fields.withDefault "receive" .none kindSet }

def layer (fields : Fields) : Option Layer := do
  return ⟨← fields.required "spatial" u8, ← fields.required "temporal" u8⟩

def layerSpec : Decoder LayerSpec := fun d => do
  let fields ← Fields.ofRecord? d
  return ⟨← layer fields, ← fields.required "bitrate_bps" u64⟩

def template : Decoder Template := fun d => do
  let fields ← Fields.ofRecord? d
  return ⟨← fields.required "id" u8, ← layer fields,
    ← fields.withDefault "frame_diffs" [] (list u16)⟩

def offer (fields : Fields) : Option Offer := do
  return {
    codec := ← fields.required "codec" (word Codec.ofName?)
    layers := ← fields.withDefault "layers" [] (list layerSpec)
    templates := ← fields.withDefault "templates" [] (list template) }

def stream (fields : Fields) : Option StreamId := do
  return ⟨← fields.required "sender_id" participant, ← fields.required "kind" kind⟩

end Decode

open Decode

/-- The fields of an event besides its tag, in order. -/
def Tag.fieldNames : Tag → List String
  | .join => ["room_id", "participant_id", "role", "protocol_version"]
  | .leave => ["room_id", "participant_id"]
  | .negotiateCodec => []
  | .subscribe | .unsubscribe => ["room_id", "receiver_id", "sender_id", "kind"]
  | .setMuted => ["room_id", "receiver_id", "sender_id", "muted"]
  | .setDeafened => ["room_id", "participant_id", "deafened"]

def Act.ofFields? (tag : Tag) (fields : Fields) : Option Act :=
  match tag with
  | .join => do
    return .join (← fields.required "participant_id" participant)
      (← fields.withDefault "role" .all role)
      (← fields.withDefault "protocol_version" protocolVersion u8)
  | .leave => do return .leave (← fields.required "participant_id" participant)
  | .negotiateCodec => do return .negotiate (← stream fields) (← offer fields)
  | .subscribe => do
    return .subscribe (← fields.required "receiver_id" participant) (← stream fields)
  | .unsubscribe => do
    return .unsubscribe (← fields.required "receiver_id" participant) (← stream fields)
  | .setMuted => do
    return .setMuted (← fields.required "receiver_id" participant)
      (← fields.required "sender_id" participant) (← fields.required "muted" flag)
  | .setDeafened => do
    return .setDeafened (← fields.required "participant_id" participant)
      (← fields.required "deafened" flag)

/-- An event from its tag and the rest of its document. An offer's fields have names only. -/
def ofDocument? (tag : Tag) (rest : Document) : Option Event := do
  let fields ← if tag = .negotiateCodec then Fields.ofRecord? rest
    else Fields.ofDocument? tag.fieldNames rest
  return { room := ⟨← fields.required "room_id" u32⟩, act := ← Act.ofFields? tag fields }

/-- The containers that may stand in each other. -/
def maxDepth : Nat := 127

/-- A tag at the front of a text. -/
def readTag (cs : List Char) : Except ReadFault (Tag × List Char) :=
  match Document.skipBlank cs with
  | '[' :: _ | '\x7b' :: _ => .error .invalid
  | cs =>
    match Document.scalar? cs with
    | none => .error .malformed
    | some (.text s, rest) =>
      match Tag.ofName? s with
      | some tag => .ok (tag, rest)
      | none => .error .invalid
    | some _ => .error .invalid

/-- The fields of a record up to its end, with the tag found among them. -/
def readFields : Nat → Bool → Option Tag → List Char →
    Except ReadFault (Option Tag × Fields × List Char)
  | 0, _, _, _ => .error .malformed
  | fuel + 1, first, tag, cs =>
    match Document.skipBlank cs with
    | '\x7d' :: rest => .ok (tag, [], rest)
    | cs =>
      match (Document.separator? first cs).bind fieldStart? with
      | none => .error .malformed
      | some ("type", rest) =>
        if tag.isSome then .error .invalid
        else do
          let (tag, rest) ← readTag (← afterColon rest)
          readFields fuel false (some tag) rest
      | some (name, rest) => do
        match Document.read? (2 * rest.length + 4) (maxDepth - 1) (← afterColon rest) with
        | none => .error .malformed
        | some (d, rest) =>
          let (tag, fields, rest) ← readFields fuel false tag rest
          return (tag, (name, d) :: fields, rest)
where
  /-- The name of a field, up to its closing quote. -/
  fieldStart? (cs : List Char) : Option (String × List Char) :=
    match Document.skipBlank cs with
    | '"' :: rest => Document.textRest? none [] rest
    | _ => none
  afterColon (cs : List Char) : Except ReadFault (List Char) :=
    match Document.skipBlank cs with
    | ':' :: rest => .ok rest
    | _ => .error .malformed

/-- The tag and the rest of an event's document, and the text after it. -/
def readParts (cs : List Char) : Except ReadFault (Tag × Document × List Char) :=
  let fuel := 2 * cs.length + 4
  match Document.skipBlank cs with
  | '\x7b' :: rest => do
    let (tag, fields, rest) ← readFields fuel true none rest
    match tag with
    | some tag => .ok (tag, .record fields, rest)
    | none => .error .invalid
  | '[' :: rest =>
    match Document.skipBlank rest with
    | ']' :: _ => .error .invalid
    | rest => do
      let (tag, rest) ← readTag rest
      match Document.readItems? fuel (maxDepth - 1) false rest with
      | none => .error .malformed
      | some (items, rest) => .ok (tag, .list items, rest)
  | cs =>
    match Document.scalar? cs with
    | none => .error .malformed
    | some _ => .error .invalid

/-- Reads an event that fills a text, white space apart. -/
def read (s : String) : Except ReadFault Event := do
  let (tag, rest, after) ← readParts s.toList
  match ofDocument? tag rest with
  | none => .error .invalid
  | some event => if (Document.skipBlank after).isEmpty then .ok event else .error .malformed

end MediaRelay.Event
