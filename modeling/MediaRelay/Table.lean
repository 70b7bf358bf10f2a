/-!
Finite maps kept in the order of their keys. A key is ordered by a number that identifies it, so two
tables with the same lookups are the same table (`Table.ext_get?`), and every listing of a table is
in ascending key order.
-/

namespace MediaRelay

/-- A key is identified and ordered by its rank. -/
class Key (κ : Type) where
  rank : κ → Nat
  rank_inj : ∀ {a b : κ}, rank a = rank b → a = b

instance : Key Nat where
  rank n := n
  rank_inj h := h

instance : Key UInt8 where
  rank n := n.toNat
  rank_inj h := UInt8.toNat_inj.mp h

instance : Key UInt32 where
  rank n := n.toNat
  rank_inj h := UInt32.toNat_inj.mp h

structure Table (κ ν : Type) [Key κ] where
  entries : List (κ × ν)
  sorted : entries.Pairwise fun a b => Key.rank a.1 < Key.rank b.1
  deriving DecidableEq

/-- A set of keys. -/
abbrev KeySet (κ : Type) [Key κ] := Table κ Unit

namespace Table

variable {κ ν μ : Type} [Key κ]

def empty : Table κ ν := ⟨[], .nil⟩

instance : Inhabited (Table κ ν) := ⟨empty⟩

instance : EmptyCollection (Table κ ν) := ⟨empty⟩

def lookup (k : κ) : List (κ × ν) → Option ν
  | [] => none
  | e :: rest => if Key.rank k = Key.rank e.1 then some e.2 else lookup k rest

def get? (t : Table κ ν) (k : κ) : Option ν := lookup k t.entries

def contains (t : Table κ ν) (k : κ) : Bool := (t.get? k).isSome

def keys (t : Table κ ν) : List κ := t.entries.map (·.1)

def values (t : Table κ ν) : List ν := t.entries.map (·.2)

def size (t : Table κ ν) : Nat := t.entries.length

def isEmpty (t : Table κ ν) : Bool := t.entries.isEmpty

/-- Puts an entry at its place, over an entry with the same key. -/
def place (k : κ) (v : ν) : List (κ × ν) → List (κ × ν)
  | [] => [(k, v)]
  | e :: rest =>
    if Key.rank k < Key.rank e.1 then (k, v) :: e :: rest
    else if Key.rank k = Key.rank e.1 then (k, v) :: rest
    else e :: place k v rest

theorem mem_place {k : κ} {v : ν} {l : List (κ × ν)} {e : κ × ν} (h : e ∈ place k v l) :
    e = (k, v) ∨ e ∈ l := by
  induction l with
  | nil => simpa [place] using h
  | cons a rest ih =>
    simp only [place] at h
    split at h
    · simpa using h
    · split at h
      · rcases List.mem_cons.mp h with h | h
        · exact .inl h
        · exact .inr (List.mem_cons_of_mem _ h)
      · rcases List.mem_cons.mp h with h | h
        · exact .inr (h ▸ List.mem_cons_self)
        · exact (ih h).imp_right (List.mem_cons_of_mem _)

theorem place_sorted (k : κ) (v : ν) {l : List (κ × ν)}
    (h : l.Pairwise fun a b => Key.rank a.1 < Key.rank b.1) :
    (place k v l).Pairwise fun a b => Key.rank a.1 < Key.rank b.1 := by
  induction l with
  | nil => simp [place]
  | cons a rest ih =>
    obtain ⟨ha, hrest⟩ := List.pairwise_cons.mp h
    simp only [place]
    split
    · rename_i hlt
      refine List.pairwise_cons.mpr ⟨fun b hb => ?_, h⟩
      rcases List.mem_cons.mp hb with rfl | hb
      · exact hlt
      · exact Nat.lt_trans hlt (ha b hb)
    · split
      · rename_i _ heq
        exact List.pairwise_cons.mpr ⟨fun b hb => heq ▸ ha b hb, hrest⟩
      · rename_i hlt hne
        refine List.pairwise_cons.mpr ⟨fun b hb => ?_, ih hrest⟩
        rcases mem_place hb with rfl | hb
        · show Key.rank a.1 < Key.rank k
          omega
        · exact ha b hb

def insert (t : Table κ ν) (k : κ) (v : ν) : Table κ ν :=
  ⟨place k v t.entries, place_sorted k v t.sorted⟩

/-- Keeps the entries that satisfy `p`. -/
def filter (t : Table κ ν) (p : κ → ν → Bool) : Table κ ν :=
  ⟨t.entries.filter fun e => p e.1 e.2, t.sorted.filter _⟩

def erase (t : Table κ ν) (k : κ) : Table κ ν := t.filter fun k' _ => Key.rank k' ≠ Key.rank k

/-- Replaces every value; keys stay. -/
def map (t : Table κ ν) (f : κ → ν → μ) : Table κ μ :=
  ⟨t.entries.map fun e => (e.1, f e.1 e.2), t.sorted.map _ fun _ _ h => h⟩

/-- Replaces the value at `k`, if there is one. -/
def modify (t : Table κ ν) (k : κ) (f : ν → ν) : Table κ ν :=
  t.map fun k' v => if Key.rank k' = Key.rank k then f v else v

/-- The value at `k`, put there first if there is none. -/
def insertIfNew (t : Table κ ν) (k : κ) (v : ν) : Table κ ν :=
  if t.contains k then t else t.insert k v

def first? (t : Table κ ν) : Option (κ × ν) := t.entries.head?

def last? (t : Table κ ν) : Option (κ × ν) := t.entries.getLast?

def ofList (l : List (κ × ν)) : Table κ ν := l.foldl (fun t e => t.insert e.1 e.2) empty

/-! Lookups after each operation. -/

@[simp] theorem get?_empty (k : κ) : (empty : Table κ ν).get? k = none := rfl

theorem lookup_place (k k' : κ) (v : ν) (l : List (κ × ν)) :
    lookup k' (place k v l) = if Key.rank k' = Key.rank k then some v else lookup k' l := by
  induction l with
  | nil => simp [place, lookup]
  | cons a rest ih =>
    simp only [place]
    split
    · simp [lookup]
    · split
      · rename_i _ heq
        simp only [lookup]
        by_cases h : Key.rank k' = Key.rank k <;> simp [h, ← heq]
      · simp only [lookup, ih]
        by_cases h : Key.rank k' = Key.rank a.1 <;> by_cases h' : Key.rank k' = Key.rank k <;>
          simp_all

theorem get?_insert (t : Table κ ν) (k k' : κ) (v : ν) :
    (t.insert k v).get? k' = if Key.rank k' = Key.rank k then some v else t.get? k' :=
  lookup_place k k' v t.entries

@[simp] theorem get?_insert_self (t : Table κ ν) (k : κ) (v : ν) :
    (t.insert k v).get? k = some v := by simp [get?_insert]

theorem lookup_eq_none {k : κ} {l : List (κ × ν)} :
    lookup k l = none ↔ ∀ e ∈ l, Key.rank e.1 ≠ Key.rank k := by
  induction l with
  | nil => simp [lookup]
  | cons a rest ih =>
    simp only [lookup]
    by_cases h : Key.rank k = Key.rank a.1
    · simp [h]
    · simp [h, ih, Ne.symm h]

theorem lookup_eq_some {k : κ} {v : ν} {l : List (κ × ν)}
    (hs : l.Pairwise fun a b => Key.rank a.1 < Key.rank b.1) :
    lookup k l = some v ↔ (k, v) ∈ l := by
  induction l with
  | nil => simp [lookup]
  | cons a rest ih =>
    obtain ⟨ha, hrest⟩ := List.pairwise_cons.mp hs
    simp only [lookup]
    by_cases h : Key.rank k = Key.rank a.1
    · have hk : k = a.1 := Key.rank_inj h
      subst hk
      simp only [if_true, Option.some.injEq, List.mem_cons]
      constructor
      · rintro rfl
        exact .inl rfl
      · rintro (heq | hmem)
        · rw [← heq]
        · exact absurd (ha _ hmem) (Nat.lt_irrefl _)
    · simp only [h, if_false, ih hrest, List.mem_cons]
      constructor
      · exact .inr
      · rintro (heq | hmem)
        · exact absurd (by rw [← heq]) h
        · exact hmem

theorem get?_eq_some_iff {t : Table κ ν} {k : κ} {v : ν} :
    t.get? k = some v ↔ (k, v) ∈ t.entries := lookup_eq_some t.sorted

theorem all_values_iff {t : Table κ ν} {p : ν → Bool} :
    t.values.all p ↔ ∀ k v, t.get? k = some v → p v := by
  simp [values, get?_eq_some_iff]

theorem get?_filter (t : Table κ ν) (p : κ → ν → Bool) (k : κ) :
    (t.filter p).get? k = (t.get? k).filter (p k) := by
  apply Option.ext
  intro v
  simp [get?_eq_some_iff, filter, Option.filter_eq_some_iff]

theorem get?_erase (t : Table κ ν) (k k' : κ) :
    (t.erase k).get? k' = if Key.rank k' = Key.rank k then none else t.get? k' := by
  rw [erase, get?_filter]
  cases h : t.get? k' <;> by_cases hk : Key.rank k' = Key.rank k <;> simp [hk, Option.filter]

@[simp] theorem get?_erase_self (t : Table κ ν) (k : κ) : (t.erase k).get? k = none := by
  simp [get?_erase]

theorem lookup_map (f : κ → ν → μ) (k : κ) (l : List (κ × ν)) :
    lookup k (l.map fun e => (e.1, f e.1 e.2)) = (lookup k l).map (f k) := by
  induction l with
  | nil => rfl
  | cons a rest ih =>
    simp only [List.map_cons, lookup, ih]
    by_cases h : Key.rank k = Key.rank a.1
    · simp [Key.rank_inj h]
    · simp [h]

theorem get?_map (t : Table κ ν) (f : κ → ν → μ) (k : κ) :
    (t.map f).get? k = (t.get? k).map (f k) := lookup_map f k t.entries

theorem get?_modify (t : Table κ ν) (k k' : κ) (f : ν → ν) :
    (t.modify k f).get? k' =
      if Key.rank k' = Key.rank k then (t.get? k').map f else t.get? k' := by
  rw [modify, get?_map]
  by_cases h : Key.rank k' = Key.rank k <;> simp [h]

theorem mem_keys_iff {t : Table κ ν} {k : κ} : k ∈ t.keys ↔ t.contains k := by
  simp only [keys, List.mem_map, contains, Option.isSome_iff_exists, get?_eq_some_iff]
  constructor
  · rintro ⟨e, he, rfl⟩
    exact ⟨e.2, he⟩
  · rintro ⟨v, hv⟩
    exact ⟨(k, v), hv, rfl⟩

@[simp] theorem keys_map (t : Table κ ν) (f : κ → ν → μ) : (t.map f).keys = t.keys := by
  simp [keys, map, Function.comp_def]

theorem contains_iff {t : Table κ ν} {k : κ} : t.contains k ↔ ∃ v, t.get? k = some v := by
  simp [contains, Option.isSome_iff_exists]

theorem contains_of_get? {t : Table κ ν} {k : κ} {v : ν} (h : t.get? k = some v) : t.contains k := by
  simp [contains, h]

@[simp] theorem contains_empty (k : κ) : (∅ : Table κ ν).contains k = false := rfl

theorem get?_insert_of_ne (t : Table κ ν) {k k' : κ} (v : ν) (h : k' ≠ k) :
    (t.insert k v).get? k' = t.get? k' := by
  rw [get?_insert, if_neg (mt Key.rank_inj h)]

theorem get?_erase_of_ne (t : Table κ ν) {k k' : κ} (h : k' ≠ k) :
    (t.erase k).get? k' = t.get? k' := by
  rw [get?_erase, if_neg (mt Key.rank_inj h)]

@[simp] theorem get?_modify_self (t : Table κ ν) (k : κ) (f : ν → ν) :
    (t.modify k f).get? k = (t.get? k).map f := by simp [get?_modify]

theorem get?_modify_of_ne (t : Table κ ν) {k k' : κ} (f : ν → ν) (h : k' ≠ k) :
    (t.modify k f).get? k' = t.get? k' := by
  rw [get?_modify, if_neg (mt Key.rank_inj h)]

theorem get?_insertIfNew (t : Table κ ν) (k k' : κ) (v : ν) :
    (t.insertIfNew k v).get? k' =
      if Key.rank k' = Key.rank k then some ((t.get? k').getD v) else t.get? k' := by
  rw [insertIfNew]
  split
  · rename_i h
    obtain ⟨w, hw⟩ := contains_iff.mp h
    split
    · rename_i hk
      simp [Key.rank_inj hk, hw]
    · rfl
  · rename_i h
    have hn : t.get? k = none := by simpa [contains] using h
    rw [get?_insert]
    split
    · rename_i hk
      simp [Key.rank_inj hk, hn]
    · rfl

theorem contains_insert {t : Table κ ν} {k k' : κ} {v : ν} :
    (t.insert k v).contains k' ↔ k' = k ∨ t.contains k' := by
  by_cases h : k' = k
  · simp [h, contains]
  · simp [h, contains, get?_insert_of_ne]

theorem contains_insertIfNew {t : Table κ ν} {k k' : κ} {v : ν} :
    (t.insertIfNew k v).contains k' ↔ k' = k ∨ t.contains k' := by
  rw [insertIfNew]
  split
  · rename_i hk
    exact ⟨.inr, fun h => h.elim (fun e => e ▸ hk) id⟩
  · exact contains_insert

theorem contains_erase {t : Table κ ν} {k k' : κ} :
    (t.erase k).contains k' ↔ k' ≠ k ∧ t.contains k' := by
  by_cases h : k' = k
  · simp [h, contains]
  · simp [h, contains, get?_erase_of_ne]

@[simp] theorem contains_map (t : Table κ ν) (f : κ → ν → μ) (k : κ) :
    (t.map f).contains k = t.contains k := by simp [contains, get?_map]

@[simp] theorem contains_modify (t : Table κ ν) (k k' : κ) (f : ν → ν) :
    (t.modify k f).contains k' = t.contains k' := contains_map _ _ _

theorem isEmpty_iff {t : Table κ ν} : t.isEmpty ↔ ∀ k, t.get? k = none := by
  constructor
  · intro h k
    have hl : t.entries = [] := by simpa [isEmpty] using h
    simp [get?, hl, lookup]
  · intro h
    rw [isEmpty, List.isEmpty_iff, List.eq_nil_iff_forall_not_mem]
    intro e he
    have := get?_eq_some_iff.mpr he
    simp [h] at this

theorem exists_contains {t : Table κ ν} (h : t.isEmpty = false) : ∃ k, t.contains k := by
  cases hl : t.entries with
  | nil => simp [isEmpty, hl] at h
  | cons e rest => exact ⟨e.1, mem_keys_iff.mp (by simp [keys, hl])⟩

theorem isEmpty_eq_false {t : Table κ ν} {k : κ} (h : t.contains k) : t.isEmpty = false := by
  rw [Bool.eq_false_iff]
  intro hempty
  simp [contains, isEmpty_iff.mp hempty k] at h

@[simp] theorem isEmpty_map (t : Table κ ν) (f : κ → ν → μ) : (t.map f).isEmpty = t.isEmpty :=
  List.isEmpty_map ..

@[simp] theorem isEmpty_insert (t : Table κ ν) (k : κ) (v : ν) : (t.insert k v).isEmpty = false :=
  isEmpty_eq_false (contains_insert.mpr (.inl rfl))

@[simp] theorem isEmpty_insertIfNew (t : Table κ ν) (k : κ) (v : ν) :
    (t.insertIfNew k v).isEmpty = false :=
  isEmpty_eq_false (contains_insertIfNew.mpr (.inl rfl))

theorem values_of_isEmpty {t : Table κ ν} (h : t.isEmpty) : t.values = [] := by
  rw [values, List.isEmpty_iff.mp h, List.map_nil]

/-- The first key is there and the lowest. -/
theorem first?_spec {t : Table κ ν} {e : κ × ν} (h : t.first? = some e) :
    t.get? e.1 = some e.2 ∧ ∀ k, t.contains k → Key.rank e.1 ≤ Key.rank k := by
  obtain ⟨rest, hl⟩ := List.head?_eq_some_iff.mp h
  refine ⟨get?_eq_some_iff.mpr (by simp [hl]), fun k hk => ?_⟩
  have hs := t.sorted
  obtain ⟨v, hv⟩ := contains_iff.mp hk
  have hmem := get?_eq_some_iff.mp hv
  rw [hl] at hs hmem
  obtain rfl | hmem := List.mem_cons.mp hmem
  · exact Nat.le_refl _
  · exact Nat.le_of_lt ((List.pairwise_cons.mp hs).1 _ hmem)

/-- The last key is there and the highest. -/
theorem last?_spec {t : Table κ ν} {e : κ × ν} (h : t.last? = some e) :
    t.get? e.1 = some e.2 ∧ ∀ k, t.contains k → Key.rank k ≤ Key.rank e.1 := by
  obtain ⟨front, hl⟩ := List.getLast?_eq_some_iff.mp h
  refine ⟨get?_eq_some_iff.mpr (by simp [hl]), fun k hk => ?_⟩
  have hs := t.sorted
  obtain ⟨v, hv⟩ := contains_iff.mp hk
  have hmem := get?_eq_some_iff.mp hv
  rw [hl] at hs hmem
  obtain hmem | hmem := List.mem_append.mp hmem
  · exact Nat.le_of_lt ((List.pairwise_append.mp hs).2.2 _ hmem e (List.mem_singleton_self e))
  · obtain rfl := List.mem_singleton.mp hmem
    exact Nat.le_refl _

theorem exists_first? {t : Table κ ν} {k : κ} (h : t.contains k) : ∃ e, t.first? = some e := by
  cases hl : t.entries with
  | nil => simp [contains, get?, hl, lookup] at h
  | cons e rest => exact ⟨e, by simp [first?, hl]⟩

theorem exists_last? {t : Table κ ν} {k : κ} (h : t.contains k) : ∃ e, t.last? = some e := by
  cases hl : t.entries with
  | nil => simp [contains, get?, hl, lookup] at h
  | cons e rest => exact ⟨_, List.getLast?_eq_some_getLast (hl ▸ List.cons_ne_nil e rest)⟩

theorem keys_nodup (t : Table κ ν) : t.keys.Nodup := by
  rw [keys, List.nodup_iff_pairwise_ne, List.pairwise_map]
  exact t.sorted.imp fun h e => absurd (e ▸ h) (Nat.lt_irrefl _)

@[simp] theorem length_keys (t : Table κ ν) : t.keys.length = t.size := by simp [keys, size]

@[simp] theorem size_empty : (∅ : Table κ ν).size = 0 := rfl

theorem length_place (k : κ) (v : ν) {l : List (κ × ν)}
    (h : l.Pairwise fun a b => Key.rank a.1 < Key.rank b.1) :
    (place k v l).length = if (lookup k l).isSome then l.length else l.length + 1 := by
  induction l with
  | nil => rfl
  | cons a rest ih =>
    obtain ⟨ha, hrest⟩ := List.pairwise_cons.mp h
    simp only [place, lookup]
    split
    · rename_i hlt
      have hnew : lookup k rest = none := lookup_eq_none.mpr fun e he => by
        have := ha e he
        omega
      simp [hnew, Nat.ne_of_lt hlt]
    · split
      · simp
      · simp only [List.length_cons, ih hrest]
        split <;> rfl

theorem size_insert (t : Table κ ν) (k : κ) (v : ν) :
    (t.insert k v).size = if t.contains k then t.size else t.size + 1 := length_place k v t.sorted

theorem size_filter_le (t : Table κ ν) (p : κ → ν → Bool) : (t.filter p).size ≤ t.size :=
  List.length_filter_le _ _

theorem size_erase_le (t : Table κ ν) (k : κ) : (t.erase k).size ≤ t.size := t.size_filter_le _

@[simp] theorem size_map (t : Table κ ν) (f : κ → ν → μ) : (t.map f).size = t.size :=
  List.length_map _

@[simp] theorem size_modify (t : Table κ ν) (k : κ) (f : ν → ν) : (t.modify k f).size = t.size :=
  t.size_map _

theorem size_pos {t : Table κ ν} {k : κ} (h : t.contains k) : 0 < t.size :=
  length_keys t ▸ List.length_pos_of_mem (mem_keys_iff.mpr h)

theorem entries_eq_of_lookup_eq {l m : List (κ × ν)}
    (hl : l.Pairwise fun a b => Key.rank a.1 < Key.rank b.1)
    (hm : m.Pairwise fun a b => Key.rank a.1 < Key.rank b.1)
    (h : ∀ k, lookup k l = lookup k m) : l = m := by
  induction l generalizing m with
  | nil =>
    cases m with
    | nil => rfl
    | cons b _ => simpa [lookup] using h b.1
  | cons a l ih =>
    cases m with
    | nil => simpa [lookup] using h a.1
    | cons b m =>
      obtain ⟨ha, hl'⟩ := List.pairwise_cons.mp hl
      obtain ⟨hb, hm'⟩ := List.pairwise_cons.mp hm
      have hab : a ∈ b :: m := (lookup_eq_some hm).mp <| by rw [← h]; simp [lookup]
      have hba : b ∈ a :: l := (lookup_eq_some hl).mp <| by rw [h]; simp [lookup]
      have heq : a = b := by
        rcases List.mem_cons.mp hab with hab | hab
        · exact hab
        · rcases List.mem_cons.mp hba with hba | hba
          · exact hba.symm
          · exact absurd (Nat.lt_trans (ha _ hba) (hb _ hab)) (Nat.lt_irrefl _)
      subst heq
      congr 1
      refine ih hl' hm' fun k => ?_
      by_cases hk : Key.rank k = Key.rank a.1
      · rw [lookup_eq_none.mpr fun e he => ?_, lookup_eq_none.mpr fun e he => ?_]
        · have := hb e he; omega
        · have := ha e he; omega
      · simpa [lookup, hk] using h k

/-- A table is determined by its lookups. -/
theorem ext_get? {s t : Table κ ν} (h : ∀ k, s.get? k = t.get? k) : s = t := by
  obtain ⟨l, hl⟩ := s
  obtain ⟨m, hm⟩ := t
  have : l = m := entries_eq_of_lookup_eq hl hm h
  subst this
  rfl

theorem keys_eq_of_contains {s : Table κ ν} {t : Table κ μ} (h : ∀ k, s.contains k = t.contains k) :
    s.keys = t.keys := by
  have hset : (s.map fun _ _ => ()) = t.map fun _ _ => () := by
    refine ext_get? fun k => ?_
    have hk := h k
    unfold contains at hk
    rw [get?_map, get?_map]
    cases hs : s.get? k <;> cases ht : t.get? k <;> simp_all
  rw [← keys_map s fun _ _ => (), hset, keys_map]

theorem size_eq_of_contains {s : Table κ ν} {t : Table κ μ}
    (h : ∀ k, s.contains k = t.contains k) : s.size = t.size := by
  rw [← length_keys, ← length_keys, keys_eq_of_contains h]

theorem modify_eq_self {t : Table κ ν} {k : κ} {f : ν → ν} (h : ∀ v, t.get? k = some v → f v = v) :
    t.modify k f = t := by
  refine ext_get? fun k' => ?_
  by_cases hk : k' = k
  · rw [hk, get?_modify_self]
    cases hv : t.get? k with
    | none => rfl
    | some v => rw [Option.map_some, h v hv]
  · rw [get?_modify_of_ne t f hk]

theorem modify_of_none {t : Table κ ν} {k : κ} {f : ν → ν} (h : t.get? k = none) :
    t.modify k f = t := modify_eq_self fun v hv => by simp [h] at hv

theorem insert_eq_modify {t : Table κ ν} {k : κ} {v : ν} {f : ν → ν} (h : t.get? k = some v) :
    t.insert k (f v) = t.modify k f := by
  refine ext_get? fun k' => ?_
  by_cases hk : k' = k
  · simp [hk, h]
  · rw [get?_insert_of_ne t _ hk, get?_modify_of_ne t f hk]

theorem insert_eq_self {t : Table κ ν} {k : κ} {v : ν} (h : t.get? k = some v) :
    t.insert k v = t :=
  (insert_eq_modify (f := fun v => v) h).trans (modify_eq_self fun _ _ => rfl)

/-- The last value put at a key stays. -/
theorem insert_insert_self (t : Table κ ν) (k : κ) (v w : ν) :
    (t.insert k v).insert k w = t.insert k w := by
  refine ext_get? fun k' => ?_
  by_cases hk : k' = k
  · simp [hk]
  · rw [get?_insert_of_ne _ _ hk, get?_insert_of_ne _ _ hk, get?_insert_of_ne _ _ hk]

theorem erase_insert_self (t : Table κ ν) (k : κ) (v : ν) : (t.insert k v).erase k = t.erase k := by
  refine ext_get? fun k' => ?_
  by_cases hk : k' = k
  · simp [hk]
  · rw [get?_erase_of_ne _ hk, get?_erase_of_ne _ hk, get?_insert_of_ne _ _ hk]

theorem insert_comm (t : Table κ ν) {k l : κ} (v w : ν) (h : k ≠ l) :
    (t.insert k v).insert l w = (t.insert l w).insert k v := by
  refine ext_get? fun k' => ?_
  by_cases hk : k' = k
  · subst hk
    rw [get?_insert_of_ne _ _ h, get?_insert_self, get?_insert_self]
  · by_cases hl : k' = l
    · rw [hl, get?_insert_self, get?_insert_of_ne _ _ h.symm, get?_insert_self]
    · rw [get?_insert_of_ne _ _ hl, get?_insert_of_ne _ _ hk, get?_insert_of_ne _ _ hk,
        get?_insert_of_ne _ _ hl]

end Table

end MediaRelay
