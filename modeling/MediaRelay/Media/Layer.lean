/-!
Layers of scalable video. A layer is a pair of indices; receiving a layer means receiving every
layer that fits within it, which is a partial order, while `precedes` is the total order of listings.
-/

namespace MediaRelay

structure Layer where
  spatial : UInt8
  temporal : UInt8
  deriving DecidableEq, Repr, Inhabited

namespace Layer

def base : Layer := ⟨0, 0⟩

/-- A header has four bits for each index. -/
def isValid (l : Layer) : Bool := l.spatial ≤ 15 && l.temporal ≤ 15

def fitsWithin (l target : Layer) : Bool :=
  l.spatial ≤ target.spatial && l.temporal ≤ target.temporal

/-- Spatial index first. -/
def precedes (a b : Layer) : Bool :=
  a.spatial < b.spatial || (a.spatial == b.spatial && a.temporal < b.temporal)

/-- The least layer that both fit within. -/
def sup (a b : Layer) : Layer := ⟨max a.spatial b.spatial, max a.temporal b.temporal⟩

def text (l : Layer) : String := s!"S{l.spatial}T{l.temporal}"

variable {l a b t : Layer}

theorem fitsWithin_iff : l.fitsWithin t ↔ l.spatial ≤ t.spatial ∧ l.temporal ≤ t.temporal := by
  simp [fitsWithin]

theorem fitsWithin_refl (l : Layer) : l.fitsWithin l :=
  fitsWithin_iff.mpr ⟨UInt8.le_refl _, UInt8.le_refl _⟩

theorem fitsWithin_antisymm (hab : a.fitsWithin b) (hba : b.fitsWithin a) : a = b := by
  have hspatial := UInt8.le_antisymm (fitsWithin_iff.mp hab).1 (fitsWithin_iff.mp hba).1
  have htemporal := UInt8.le_antisymm (fitsWithin_iff.mp hab).2 (fitsWithin_iff.mp hba).2
  rw [show a = ⟨a.spatial, a.temporal⟩ from rfl, hspatial, htemporal]

theorem sup_fitsWithin_iff : (a.sup b).fitsWithin t ↔ a.fitsWithin t ∧ b.fitsWithin t := by
  have hmax (i j k : UInt8) : max i j ≤ k ↔ i ≤ k ∧ j ≤ k := by
    simp only [max, UInt8.le_iff_toNat_le]
    split <;> omega
  simp only [fitsWithin_iff, sup, hmax]
  exact and_and_and_comm

end Layer

end MediaRelay
