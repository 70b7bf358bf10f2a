import MediaRelay.Wire.Header

/-!
Which worker handles a datagram. The choice hangs on room and sender alone, so the datagrams of one
sender stay in order; it is their keyed hash, SipHash with one round for each word and three at the
end, under the zero key.
-/

namespace MediaRelay.Sharding

structure SipState where
  v₀ : UInt64
  v₁ : UInt64
  v₂ : UInt64
  v₃ : UInt64

def rotate (x : UInt64) (n : UInt64) : UInt64 := x <<< n ||| x >>> (64 - n)

namespace SipState

def start : SipState :=
  ⟨0x736f6d6570736575, 0x646f72616e646f6d, 0x6c7967656e657261, 0x7465646279746573⟩

def round (s : SipState) : SipState :=
  let v₀ := s.v₀ + s.v₁
  let v₁ := rotate s.v₁ 13 ^^^ v₀
  let v₀ := rotate v₀ 32
  let v₂ := s.v₂ + s.v₃
  let v₃ := rotate s.v₃ 16 ^^^ v₂
  let v₀ := v₀ + v₃
  let v₃ := rotate v₃ 21 ^^^ v₀
  let v₂ := v₂ + v₁
  let v₁ := rotate v₁ 17 ^^^ v₂
  let v₂ := rotate v₂ 32
  ⟨v₀, v₁, v₂, v₃⟩

/-- Takes in one word. -/
def absorb (s : SipState) (word : UInt64) : SipState :=
  let s := round { s with v₃ := s.v₃ ^^^ word }
  { s with v₀ := s.v₀ ^^^ word }

def finish (s : SipState) : UInt64 :=
  let s := round (round (round { s with v₂ := s.v₂ ^^^ 0xFF }))
  s.v₀ ^^^ s.v₁ ^^^ s.v₂ ^^^ s.v₃

end SipState

/-- The hash of eight bytes, given as a word with the first byte lowest. The last word taken in holds
the number of bytes at its top. -/
def hash (word : UInt64) : UInt64 :=
  ((SipState.start.absorb word).absorb 0x0800000000000000).finish

/-- The worker for a datagram; one too short for a header goes to the first. -/
def workerOf (raw : Bytes) (workers : Nat) : Nat :=
  match Header.route? raw with
  | none => 0
  | some (room, sender) =>
    let word := room.number.toUInt64 ||| sender.number.toUInt64 <<< 32
    (hash word).toNat % max workers 1

end MediaRelay.Sharding
