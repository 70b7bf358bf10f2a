/-!
Words on the wire: numbers of `w` bytes, the most significant first.
-/

namespace MediaRelay

abbrev Bytes := List UInt8

namespace Wire.Word

def value (b : Bytes) : Nat := b.foldl (fun n x => n * 256 + x.toNat) 0

/-- The last `w` bytes of a number. -/
def bytes : Nat → Nat → Bytes
  | 0, _ => []
  | w + 1, n => UInt8.ofNat (n >>> (8 * w)) :: bytes w n

/-- Signed reading of a two-byte number. -/
def signed16 (n : Nat) : Int := Int.bmod n 65536

/-- The two bytes of a signed number. -/
def bytes16 (z : Int) : Bytes := bytes 2 (z % 65536).toNat

def u16s : Bytes → List UInt16
  | a :: b :: rest => UInt16.ofNat (value [a, b]) :: u16s rest
  | _ => []

def u32s : Bytes → List UInt32
  | a :: b :: c :: d :: rest => UInt32.ofNat (value [a, b, c, d]) :: u32s rest
  | _ => []

@[simp] theorem length_bytes (w n : Nat) : (bytes w n).length = w := by
  induction w with
  | zero => rfl
  | succ w ih => simp [bytes, ih]

end Wire.Word

end MediaRelay
