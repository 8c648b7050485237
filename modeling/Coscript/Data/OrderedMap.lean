/-!
# Maps in insertion order

A map that lists its entries in the order in which their keys were first inserted; a key that is
inserted again keeps its place and takes the new value.

* `OrderedMap.get?_insert`: what a lookup finds after an insertion;
* `OrderedMap.keys_insert_of_mem`, `OrderedMap.keys_insert_of_not_mem`: an insertion keeps the
  order of the keys and puts a new key last.
-/

namespace Coscript

/-- Entries with distinct keys, oldest key first. -/
structure OrderedMap (κ ν : Type) where
  entries : List (κ × ν)
  nodup : (entries.map Prod.fst).Nodup

namespace OrderedMap

variable {κ ν : Type}

/-- The map without entries. -/
def empty : OrderedMap κ ν := ⟨[], List.nodup_nil⟩

instance : Inhabited (OrderedMap κ ν) := ⟨empty⟩

instance : EmptyCollection (OrderedMap κ ν) := ⟨empty⟩

/-- The number of entries. -/
def size (m : OrderedMap κ ν) : Nat := m.entries.length

/-- The keys, oldest first. -/
def keys (m : OrderedMap κ ν) : List κ := m.entries.map Prod.fst

/-- The values in the order of their keys. -/
def values (m : OrderedMap κ ν) : List ν := m.entries.map Prod.snd

theorem ext {m n : OrderedMap κ ν} (h : m.entries = n.entries) : m = n := by
  cases m
  cases n
  simp_all

instance [DecidableEq κ] [DecidableEq ν] : DecidableEq (OrderedMap κ ν) := fun m n =>
  if h : m.entries = n.entries then .isTrue (ext h) else .isFalse fun e => h (e ▸ rfl)

variable [DecidableEq κ]

/-! ### Entry lists -/

/-- The value of the first entry with a key. -/
def find (k : κ) : List (κ × ν) → Option ν
  | [] => none
  | e :: es => if e.1 = k then some e.2 else find k es

/-- Replaces the value of a key in place, or appends a new entry. -/
def put (k : κ) (v : ν) : List (κ × ν) → List (κ × ν)
  | [] => [(k, v)]
  | e :: es => if e.1 = k then (k, v) :: es else e :: put k v es

theorem find_eq_none_iff {k : κ} {es : List (κ × ν)} :
    find k es = none ↔ k ∉ es.map Prod.fst := by
  induction es with
  | nil => simp [find]
  | cons e es ih =>
    by_cases h : e.1 = k
    · simp [find, h]
    · simp [find, h, ih, Ne.symm h]

theorem find_put (k k' : κ) (v : ν) (es : List (κ × ν)) :
    find k' (put k v es) = if k = k' then some v else find k' es := by
  induction es with
  | nil => simp [put, find]
  | cons e es ih =>
    by_cases h : e.1 = k
    · by_cases hk : k = k'
      · simp [put, h, find, hk]
      · simp [put, h, find, hk]
    · by_cases hk : k = k'
      · subst hk
        simp [put, h, find, ih]
      · simp [put, h, find, ih, hk]

theorem map_fst_put_of_mem {k : κ} {v : ν} {es : List (κ × ν)} (h : k ∈ es.map Prod.fst) :
    (put k v es).map Prod.fst = es.map Prod.fst := by
  induction es with
  | nil => simp at h
  | cons e es ih =>
    by_cases he : e.1 = k
    · simp [put, he]
    · have : k ∈ es.map Prod.fst := by simpa [Ne.symm he] using h
      simp only [put, if_neg he, List.map_cons, ih this]

theorem map_fst_put_of_not_mem {k : κ} {v : ν} {es : List (κ × ν)} (h : k ∉ es.map Prod.fst) :
    put k v es = es ++ [(k, v)] := by
  induction es with
  | nil => rfl
  | cons e es ih =>
    have he : ¬ e.1 = k := fun he => h (by simp [he])
    have : k ∉ es.map Prod.fst := fun hk =>
      h (by simp only [List.map_cons, List.mem_cons, hk, or_true])
    simp only [put, if_neg he, ih this, List.cons_append]

theorem nodup_put {k : κ} {v : ν} {es : List (κ × ν)} (h : (es.map Prod.fst).Nodup) :
    ((put k v es).map Prod.fst).Nodup := by
  by_cases hk : k ∈ es.map Prod.fst
  · rwa [map_fst_put_of_mem hk]
  · rw [map_fst_put_of_not_mem hk]
    simp only [List.map_append, List.map_cons, List.map_nil, List.nodup_append, h,
      List.nodup_cons, List.not_mem_nil, not_false_eq_true, List.nodup_nil, and_self,
      List.mem_cons, or_false, true_and]
    rintro a ha b rfl rfl
    exact hk ha

/-! ### Operations -/

/-- The value of a key. -/
def get? (m : OrderedMap κ ν) (k : κ) : Option ν := find k m.entries

/-- Whether a key has a value. -/
def contains (m : OrderedMap κ ν) (k : κ) : Bool := (m.get? k).isSome

/-- Gives a key a value; a new key comes last. -/
def insert (m : OrderedMap κ ν) (k : κ) (v : ν) : OrderedMap κ ν :=
  ⟨put k v m.entries, nodup_put m.nodup⟩

/-- Forgets a key. -/
def erase (m : OrderedMap κ ν) (k : κ) : OrderedMap κ ν :=
  ⟨m.entries.filter (·.1 ≠ k), m.nodup.sublist (List.filter_sublist.map _)⟩

/-- Inserts the pairs of a list in their order. -/
def ofList (es : List (κ × ν)) : OrderedMap κ ν :=
  es.foldl (fun m e => m.insert e.1 e.2) empty

@[simp] theorem get?_empty (k : κ) : (empty : OrderedMap κ ν).get? k = none := rfl

/-- A lookup after an insertion finds the new value of that key and the old one of any other. -/
theorem get?_insert (m : OrderedMap κ ν) (k k' : κ) (v : ν) :
    (m.insert k v).get? k' = if k = k' then some v else m.get? k' :=
  find_put k k' v m.entries

theorem get?_eq_none_iff {m : OrderedMap κ ν} {k : κ} : m.get? k = none ↔ k ∉ m.keys :=
  find_eq_none_iff

theorem keys_insert_of_mem {m : OrderedMap κ ν} {k : κ} {v : ν} (h : k ∈ m.keys) :
    (m.insert k v).keys = m.keys :=
  map_fst_put_of_mem h

theorem keys_insert_of_not_mem {m : OrderedMap κ ν} {k : κ} {v : ν} (h : k ∉ m.keys) :
    (m.insert k v).keys = m.keys ++ [k] := by
  show (put k v m.entries).map Prod.fst = _
  rw [map_fst_put_of_not_mem h, List.map_append]
  rfl

end OrderedMap

end Coscript
