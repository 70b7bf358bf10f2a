import MediaRelay.KeyframeGate

/-!
What the keyframe gate remembers is as much as matters. It forgets requests of long ago, and no
later request is answered differently for it (`KeyframeGate.answers_cleanup`); as long as the clock
does not run backwards it is open exactly when the last request is an interval ago
(`KeyframeGate.Tracks`).
-/

namespace MediaRelay.KeyframeGate

variable {g g' : KeyframeGate} {id : StreamId} {now u : Time}

theorem isOpen_of_none (h : g.lastRequest.get? id = none) (u : Time) : g.isOpen id u := by
  rw [isOpen, h]
  rfl

/-- The gate right after a request. -/
def closedAt (g : KeyframeGate) (id : StreamId) (now : Time) : KeyframeGate :=
  { g with lastRequest := g.lastRequest.insert id now }

theorem closedAt_isOpen_self (g : KeyframeGate) (id : StreamId) (now u : Time) :
    (g.closedAt id now).isOpen id u ↔ g.interval ≤ Time.since u now := by
  rw [isOpen, closedAt, Table.get?_insert_self, Option.all_some]
  exact decide_eq_true_iff

theorem closedAt_isOpen_of_ne (g : KeyframeGate) {id other : StreamId} (hne : other ≠ id)
    (now u : Time) : (g.closedAt id now).isOpen other u = g.isOpen other u := by
  rw [isOpen, closedAt, Table.get?_insert_of_ne _ _ hne]
  rfl

theorem forget_isOpen_self (g : KeyframeGate) (id : StreamId) (u : Time) :
    (g.forget id).isOpen id u :=
  isOpen_of_none (Table.get?_erase_self _ _) u

theorem forget_isOpen_of_ne (g : KeyframeGate) {id other : StreamId} (hne : other ≠ id) (u : Time) :
    (g.forget id).isOpen other u = g.isOpen other u := by
  rw [isOpen, forget, Table.get?_erase_of_ne _ hne]
  rfl

/-- A request that is forgotten was made so long ago that the gate is open without it, too. -/
theorem cleanup_isOpen (g : KeyframeGate) (id : StreamId) (h : now ≤ u) :
    (g.cleanup now).isOpen id u = g.isOpen id u := by
  unfold isOpen cleanup
  rw [Table.get?_filter]
  cases g.lastRequest.get? id with
  | none => rfl
  | some last =>
    rw [Option.filter_some]
    split
    · rfl
    · rename_i hlong
      rw [decide_eq_true_iff, Nat.not_lt] at hlong
      have hopen : g.interval ≤ Time.since u last :=
        calc g.interval
          _ ≤ g.interval * 10 := Nat.le_mul_of_pos_right _ (by decide)
          _ ≤ now - last := hlong
          _ ≤ u - last := Nat.sub_le_sub_right h last
      exact (decide_eq_true hopen).symm

section Alike

/-- From some time on the gates let the same requests pass. -/
structure Alike (g g' : KeyframeGate) (now : Time) : Prop where
  interval : g'.interval = g.interval
  isOpen : ∀ id u, now ≤ u → g'.isOpen id u = g.isOpen id u

theorem cleanup_alike (g : KeyframeGate) (now : Time) : g.Alike (g.cleanup now) now :=
  ⟨rfl, fun id _ hu => g.cleanup_isOpen id hu⟩

theorem Alike.later (h : g.Alike g' now) (hu : now ≤ u) : g.Alike g' u :=
  ⟨h.interval, fun id v hv => h.isOpen id v (Nat.le_trans hu hv)⟩

theorem Alike.closedAt (h : g.Alike g' now) (id : StreamId) :
    (g.closedAt id now).Alike (g'.closedAt id now) now := by
  refine ⟨h.interval, fun other u hu => ?_⟩
  by_cases hother : other = id
  · rw [hother, Bool.eq_iff_iff, closedAt_isOpen_self, closedAt_isOpen_self, h.interval]
  · rw [closedAt_isOpen_of_ne _ hother, closedAt_isOpen_of_ne _ hother, h.isOpen other u hu]

theorem Alike.request (h : g.Alike g' now) (id : StreamId) :
    (g'.request id now).2 = (g.request id now).2 ∧
      (g.request id now).1.Alike (g'.request id now).1 now := by
  unfold KeyframeGate.request
  rw [h.isOpen id now (Nat.le_refl now)]
  cases g.isOpen id now with
  | true => exact ⟨rfl, h.closedAt id⟩
  | false => exact ⟨rfl, h⟩

theorem Alike.forget (h : g.Alike g' now) (id : StreamId) :
    (g.forget id).Alike (g'.forget id) now := by
  refine ⟨h.interval, fun other u hu => ?_⟩
  by_cases hother : other = id
  · rw [hother, Bool.eq_iff_iff]
    exact iff_of_true (forget_isOpen_self _ _ _) (forget_isOpen_self _ _ _)
  · rw [forget_isOpen_of_ne _ hother, forget_isOpen_of_ne _ hother, h.isOpen other u hu]

theorem Alike.cleanup (h : g.Alike g' now) : (g.cleanup now).Alike (g'.cleanup now) now := by
  refine ⟨h.interval, fun id u hu => ?_⟩
  rw [cleanup_isOpen _ _ hu, cleanup_isOpen _ _ hu, h.isOpen id u hu]

/-- What is done with a gate. -/
inductive Op
  | request (id : StreamId)
  | forget (id : StreamId)
  | cleanup

/-- The answers to the requests among operations. -/
def answers (g : KeyframeGate) : List (Time × Op) → List Bool
  | [] => []
  | (now, .request id) :: rest =>
    let (g, passed) := g.request id now
    passed :: answers g rest
  | (_, .forget id) :: rest => answers (g.forget id) rest
  | (now, .cleanup) :: rest => answers (g.cleanup now) rest

theorem Alike.answers (h : g.Alike g' now) {ops : List (Time × Op)}
    (hclock : (now :: ops.map (·.1)).Pairwise (· ≤ ·)) : g'.answers ops = g.answers ops := by
  induction ops generalizing g g' now with
  | nil => rfl
  | cons first rest ih =>
    obtain ⟨t, op⟩ := first
    obtain ⟨hnow, hrest⟩ := List.pairwise_cons.mp hclock
    have h : g.Alike g' t := h.later (hnow t List.mem_cons_self)
    cases op with
    | request id =>
      obtain ⟨hpassed, hafter⟩ := h.request id
      show (g'.request id t).2 :: (g'.request id t).1.answers rest =
        (g.request id t).2 :: (g.request id t).1.answers rest
      rw [hpassed, ih hafter hrest]
    | forget id => exact ih (h.forget id) hrest
    | cleanup => exact ih h.cleanup hrest

/-- A cleanup changes the answer to no later request. -/
theorem answers_cleanup (g : KeyframeGate) {ops : List (Time × Op)}
    (hclock : (now :: ops.map (·.1)).Pairwise (· ≤ ·)) :
    (g.cleanup now).answers ops = g.answers ops :=
  (g.cleanup_alike now).answers hclock

end Alike

/-- From `now` on, the gate for a stream is open exactly when the last request is an interval ago. A
request is remembered only if there was one. -/
structure Tracks (g : KeyframeGate) (interval : Nat) (id : StreamId) (last : Option Time)
    (now : Time) : Prop where
  period : g.interval = interval
  past : ∀ t, last = some t → t ≤ now
  recalled : g.lastRequest.contains id → last.isSome
  isOpen_iff : ∀ u, now ≤ u → (g.isOpen id u ↔ ∀ t, last = some t → t + interval ≤ u)

namespace Tracks

variable {interval : Nat} {last : Option Time}

/-- Nothing was asked, or it was forgotten. -/
theorem fresh (hperiod : g.interval = interval) (h : g.lastRequest.get? id = none) (now : Time) :
    g.Tracks interval id none now := by
  refine ⟨hperiod, nofun, fun hc => ?_, fun u _ => iff_of_true (isOpen_of_none h u) nofun⟩
  rw [Table.contains, h] at hc
  cases hc

theorem later (h : g.Tracks interval id last now) (hu : now ≤ u) : g.Tracks interval id last u :=
  ⟨h.period, fun t ht => Nat.le_trans (h.past t ht) hu, h.recalled,
    fun v hv => h.isOpen_iff v (Nat.le_trans hu hv)⟩

theorem closedAt (h : g.Tracks interval id last now) (other : StreamId) :
    (g.closedAt other now).Tracks interval id (if other = id then some now else last) now := by
  split
  · rename_i heq
    subst heq
    refine ⟨h.period, fun t ht => Nat.le_of_eq (Option.some.inj ht).symm, fun _ => rfl,
      fun u hu => ?_⟩
    rw [closedAt_isOpen_self, h.period, Time.since, Nat.le_sub_iff_add_le' hu]
    exact ⟨fun hspaced t ht => Option.some.inj ht ▸ hspaced, fun hspaced => hspaced now rfl⟩
  · rename_i hne
    have hne : id ≠ other := Ne.symm hne
    refine ⟨h.period, h.past, fun hc => h.recalled ?_, fun u hu => ?_⟩
    · exact (Table.contains_insert.mp hc).resolve_left hne
    · rw [closedAt_isOpen_of_ne _ hne]
      exact h.isOpen_iff u hu

theorem cleanup (h : g.Tracks interval id last now) :
    (g.cleanup now).Tracks interval id last now := by
  refine ⟨h.period, h.past, fun hc => h.recalled ?_, fun u hu => ?_⟩
  · obtain ⟨t, ht⟩ := Table.contains_iff.mp hc
    rw [KeyframeGate.cleanup, Table.get?_filter, Option.filter_eq_some_iff] at ht
    exact Table.contains_of_get? ht.1
  · rw [cleanup_isOpen _ _ hu]
    exact h.isOpen_iff u hu

end Tracks

end MediaRelay.KeyframeGate
