import MediaRelay.Relay

/-!
What is counted. Every counter grows by what one datagram adds to it, so the counts of two datagrams
do not depend on their order.
-/

namespace MediaRelay

namespace Counters

theorem dropCount_dropped (c : Counters) (reason other : DropReason) :
    (c.dropped reason).dropCount other =
      if other = reason then c.dropCount other + 1 else c.dropCount other := by
  unfold dropCount dropped
  by_cases h : other = reason
  · rw [if_pos h, h, Table.get?_insert_self]
    rfl
  · rw [if_neg h, Table.get?_insert_of_ne _ _ h]

theorem dropped_dropped_of_ne (c : Counters) {a b : DropReason} (h : b ≠ a) :
    (c.dropped a).dropped b =
      { c with drops := (c.drops.insert a (c.dropCount a + 1)).insert b (c.dropCount b + 1) } := by
  have hb := c.dropCount_dropped a b
  rw [if_neg h] at hb
  rw [← hb]
  rfl

theorem dropped_comm (c : Counters) (a b : DropReason) :
    (c.dropped a).dropped b = (c.dropped b).dropped a := by
  by_cases h : a = b
  · rw [h]
  · rw [c.dropped_dropped_of_ne (Ne.symm h), c.dropped_dropped_of_ne h, Table.insert_comm _ _ _ h]

theorem received_comm (c : Counters) (m n : Nat) :
    (c.received m).received n = (c.received n).received m := by
  have hbytes : c.bytesReceived + .ofNat m + .ofNat n = c.bytesReceived + .ofNat n + .ofNat m := by
    ac_rfl
  simp only [received, hbytes]

end Counters

namespace Relay

theorem countOutcome_comm (c : Counters) (o o' : Outcome) :
    countOutcome (countOutcome c o) o' = countOutcome (countOutcome c o') o := by
  simp only [countOutcome, Counters.forwarded, Counters.withheld, Counters.requestedKeyframes,
    Counters.sentFeedback, Counters.mk.injEq]
  refine ⟨trivial, trivial, ?_, ?_, ?_, trivial, ?_, ?_, trivial, trivial⟩ <;> ac_rfl

/-- Counts a media datagram and what became of it. -/
def countMedia (c : Counters) (size : Nat) : Except DropReason Outcome → Counters
  | .error reason => (c.received size).dropped reason
  | .ok out => countOutcome (c.received size) out

theorem countMedia_comm (c : Counters) (m n : Nat) (x y : Except DropReason Outcome) :
    countMedia (countMedia c m x) n y = countMedia (countMedia c n y) m x := by
  -- steps that touch different fields change places by computation
  cases x with
  | error a =>
    cases y with
    | error b =>
      show (((c.received m).received n).dropped a).dropped b =
        (((c.received n).received m).dropped b).dropped a
      rw [c.received_comm, Counters.dropped_comm]
    | ok out =>
      show (countOutcome ((c.received m).received n) out).dropped a =
        (countOutcome ((c.received n).received m) out).dropped a
      rw [c.received_comm]
  | ok out =>
    cases y with
    | error b =>
      show (countOutcome ((c.received m).received n) out).dropped b =
        (countOutcome ((c.received n).received m) out).dropped b
      rw [c.received_comm]
    | ok out' =>
      show countOutcome (countOutcome ((c.received m).received n) out) out' =
        countOutcome (countOutcome ((c.received n).received m) out') out
      rw [c.received_comm, countOutcome_comm]

theorem countAnswer_of_media (c : Counters) (size : Nat) {type : PacketType}
    (h : type ≠ .feedback) (answer : Except DropReason Outcome) :
    countAnswer (c.received size) type answer = countMedia c size answer := by
  cases answer with
  | error reason => rfl
  | ok out => rw [countAnswer, if_neg h, countMedia]

end Relay

end MediaRelay
