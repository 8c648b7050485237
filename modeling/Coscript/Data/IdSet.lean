/-!
# Finite sets of numbers

Sets of small numbers as strictly increasing lists. Two sets with the same members are equal, and
walking a set visits its members in increasing order.

* `IdSet.ext`: a set is determined by its members;
* `IdSet.mem_insert`, `IdSet.mem_union`: what the operations do to membership.
-/

namespace Coscript

/-- A set of numbers, listed in increasing order. -/
structure IdSet where
  toList : List Nat
  increasing : toList.Pairwise (· < ·)

namespace IdSet

/-! ### Increasing lists -/

/-- Puts a number in its place in an increasing list. -/
def place (n : Nat) : List Nat → List Nat
  | [] => [n]
  | m :: ms => if n < m then n :: m :: ms else if n = m then m :: ms else m :: place n ms

/-- Merges two increasing lists. -/
def merge : List Nat → List Nat → List Nat
  | [], ys => ys
  | x :: xs, ys => ys.takeWhile (· < x) ++ x :: merge xs (ys.dropWhile (· ≤ x))

theorem mem_place {k n : Nat} {xs : List Nat} : k ∈ place n xs ↔ k = n ∨ k ∈ xs := by
  induction xs with
  | nil => simp [place]
  | cons m ms ih =>
    unfold place
    split
    · simp
    · split
      · next h =>
        subst h
        simp
      · simp only [List.mem_cons, ih]
        grind

theorem pairwise_place {n : Nat} {xs : List Nat} (h : xs.Pairwise (· < ·)) :
    (place n xs).Pairwise (· < ·) := by
  induction xs with
  | nil => simp [place]
  | cons m ms ih =>
    have hm := List.pairwise_cons.mp h
    unfold place
    split
    · next hlt =>
      refine List.pairwise_cons.mpr ⟨fun k hk => ?_, h⟩
      rcases List.mem_cons.mp hk with rfl | hk
      · exact hlt
      · exact Nat.lt_trans hlt (hm.1 k hk)
    · split
      · exact h
      · refine List.pairwise_cons.mpr ⟨fun k hk => ?_, ih hm.2⟩
        rcases mem_place.mp hk with rfl | hk
        · omega
        · exact hm.1 k hk

/-- An increasing list splits at a number into the members below, at and above it. -/
theorem mem_split {k x : Nat} {ys : List Nat} (h : ys.Pairwise (· < ·)) :
    (k ∈ ys.takeWhile (· < x) ↔ k ∈ ys ∧ k < x) ∧
      (k ∈ ys.dropWhile (· ≤ x) ↔ k ∈ ys ∧ x < k) := by
  induction ys with
  | nil => simp
  | cons y ys ih =>
    have hy := List.pairwise_cons.mp h
    have ih := ih hy.2
    constructor
    · rw [List.takeWhile_cons]
      split
      · next hlt =>
        simp only [decide_eq_true_eq] at hlt
        simp only [List.mem_cons, ih.1]
        grind
      · next hlt =>
        simp only [decide_eq_true_eq] at hlt
        simp only [List.not_mem_nil, List.mem_cons, false_iff, not_and]
        rintro (rfl | hk)
        · exact hlt
        · have := hy.1 k hk
          omega
    · rw [List.dropWhile_cons]
      split
      · next hle =>
        simp only [decide_eq_true_eq] at hle
        simp only [ih.2, List.mem_cons]
        grind
      · next hle =>
        simp only [decide_eq_true_eq] at hle
        simp only [List.mem_cons]
        constructor
        · rintro (rfl | hk)
          · exact ⟨.inl rfl, by omega⟩
          · have := hy.1 k hk
            exact ⟨.inr hk, by omega⟩
        · exact fun hk => hk.1

theorem mem_merge {k : Nat} {xs ys : List Nat} (hx : xs.Pairwise (· < ·))
    (hy : ys.Pairwise (· < ·)) : k ∈ merge xs ys ↔ k ∈ xs ∨ k ∈ ys := by
  induction xs generalizing ys with
  | nil => simp [merge]
  | cons x xs ih =>
    have hs := mem_split (k := k) (x := x) hy
    have hd : (ys.dropWhile (· ≤ x)).Pairwise (· < ·) := hy.sublist (List.dropWhile_sublist _)
    simp only [merge, List.mem_append, List.mem_cons, ih (List.pairwise_cons.mp hx).2 hd, hs.1,
      hs.2]
    grind

theorem pairwise_merge {xs ys : List Nat} (hx : xs.Pairwise (· < ·))
    (hy : ys.Pairwise (· < ·)) : (merge xs ys).Pairwise (· < ·) := by
  induction xs generalizing ys with
  | nil => exact hy
  | cons x xs ih =>
    have hx' := List.pairwise_cons.mp hx
    have hd : (ys.dropWhile (· ≤ x)).Pairwise (· < ·) := hy.sublist (List.dropWhile_sublist _)
    have above : ∀ k ∈ merge xs (ys.dropWhile (· ≤ x)), x < k := by
      intro k hk
      rcases (mem_merge hx'.2 hd).mp hk with hk | hk
      · exact hx'.1 k hk
      · exact ((mem_split hy).2.mp hk).2
    simp only [merge]
    refine List.pairwise_append.mpr
      ⟨hy.sublist (List.takeWhile_sublist _), List.pairwise_cons.mpr ⟨above, ih hx'.2 hd⟩, ?_⟩
    intro a ha b hb
    have ha := ((mem_split hy).1.mp ha).2
    rcases List.mem_cons.mp hb with rfl | hb
    · exact ha
    · exact Nat.lt_trans ha (above b hb)

/-- Increasing lists with the same members are equal. -/
theorem eq_of_mem_iff {xs ys : List Nat} (hx : xs.Pairwise (· < ·)) (hy : ys.Pairwise (· < ·))
    (h : ∀ k, k ∈ xs ↔ k ∈ ys) : xs = ys := by
  induction xs generalizing ys with
  | nil =>
    cases ys with
    | nil => rfl
    | cons y ys => simpa using (h y).mpr (by simp)
  | cons x xs ih =>
    cases ys with
    | nil => simpa using (h x).mp (by simp)
    | cons y ys =>
      have hx' := List.pairwise_cons.mp hx
      have hy' := List.pairwise_cons.mp hy
      have hxy : x = y := by
        have h1 := (h x).mp (by simp)
        have h2 := (h y).mpr (by simp)
        rcases List.mem_cons.mp h1 with e | h1
        · exact e
        · rcases List.mem_cons.mp h2 with e | h2
          · exact e.symm
          · have := hy'.1 x h1
            have := hx'.1 y h2
            omega
      subst hxy
      congr 1
      refine ih hx'.2 hy'.2 fun k => ?_
      have := h k
      simp only [List.mem_cons] at this
      constructor
      · intro hk
        rcases this.mp (.inr hk) with e | hk'
        · have := hx'.1 k hk
          omega
        · exact hk'
      · intro hk
        rcases this.mpr (.inr hk) with e | hk'
        · have := hy'.1 k hk
          omega
        · exact hk'

/-! ### Sets -/

instance : Membership Nat IdSet := ⟨fun s n => n ∈ s.toList⟩

instance (n : Nat) (s : IdSet) : Decidable (n ∈ s) := inferInstanceAs (Decidable (n ∈ s.toList))

theorem mem_def {n : Nat} {s : IdSet} : n ∈ s ↔ n ∈ s.toList := Iff.rfl

/-- A set is determined by its members. -/
theorem ext {s t : IdSet} (h : ∀ n, n ∈ s ↔ n ∈ t) : s = t := by
  cases s with | mk xs hx =>
  cases t with | mk ys hy =>
  have : xs = ys := eq_of_mem_iff hx hy h
  subst this
  rfl

instance : DecidableEq IdSet := fun s t =>
  if h : s.toList = t.toList then
    .isTrue (ext fun n => by rw [mem_def, mem_def, h])
  else
    .isFalse fun e => h (e ▸ rfl)

instance : Hashable IdSet where
  hash s := .ofNat (s.toList.foldl (fun h n => (h * 31 + n + 1) % 0x100000000) 7)

/-- The set without members. -/
def empty : IdSet := ⟨[], .nil⟩

instance : EmptyCollection IdSet := ⟨empty⟩

instance : Inhabited IdSet := ⟨empty⟩

/-- The number of members. -/
def size (s : IdSet) : Nat := s.toList.length

/-- Whether there are no members. -/
def isEmpty (s : IdSet) : Bool := s.toList.isEmpty

/-- Adds a member. -/
def insert (s : IdSet) (n : Nat) : IdSet := ⟨place n s.toList, pairwise_place s.increasing⟩

/-- The members of either set. -/
def union (s t : IdSet) : IdSet :=
  ⟨merge s.toList t.toList, pairwise_merge s.increasing t.increasing⟩

/-- Drops a member. -/
def erase (s : IdSet) (n : Nat) : IdSet :=
  ⟨s.toList.filter (· ≠ n), s.increasing.filter _⟩

/-- The set of the members of a list. -/
def ofList (xs : List Nat) : IdSet := xs.foldl insert empty

@[simp] theorem not_mem_empty (n : Nat) : n ∉ (empty : IdSet) := by
  simp [mem_def, empty]

@[simp] theorem mem_insert {s : IdSet} {n k : Nat} : k ∈ s.insert n ↔ k = n ∨ k ∈ s :=
  mem_place

@[simp] theorem mem_union {s t : IdSet} {k : Nat} : k ∈ s.union t ↔ k ∈ s ∨ k ∈ t :=
  mem_merge s.increasing t.increasing

@[simp] theorem mem_erase {s : IdSet} {n k : Nat} : k ∈ s.erase n ↔ k ∈ s ∧ k ≠ n := by
  simp [mem_def, erase]

end IdSet

end Coscript
