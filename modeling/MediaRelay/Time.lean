/-! The relay's clock, in microseconds from its start. It may be read out of order. -/

namespace MediaRelay

abbrev Time := Nat

namespace Time

/-- The time since `past`, zero if that is still to come. -/
def since (now past : Time) : Nat := now - past

def ofMillis (ms : Nat) : Nat := ms * 1000

end Time

end MediaRelay
