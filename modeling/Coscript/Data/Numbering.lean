import Std.Data.TreeMap

/-!
# Numberings

A **numbering** gives distinct values the numbers `0, 1, 2, …` in the order in which they first
appear. Items, automaton states, terminals and cores are all kept this way, so that sets of them
are sets of small numbers.

The number of a value is found through its hash: values with one hash share a bucket, which lists
them with their numbers.

* `Numbering.number?_eq_some_iff`: the two views of a numbering agree, `number?` from values to
  numbers and `get?` from numbers to values;
* `Numbering.get?_insert_snd`: an inserted value has the number that the insertion returns;
* `Numbering.get?_insert_of_get?`: a number once given is never given up.
-/

namespace Coscript

/-- Values with their numbers, in buckets by the hash of the value. -/
abbrev Buckets (α : Type) := Std.TreeMap Nat (List (α × Nat))

namespace Buckets

variable {α : Type} [DecidableEq α] [Hashable α]

/-- The bucket of a value. -/
def bucket (b : Buckets α) (x : α) : List (α × Nat) := (b[(hash x).toNat]?).getD []

/-- The number of a value. -/
def number? (b : Buckets α) (x : α) : Option Nat := (b.bucket x).lookup x

/-- Puts a value with its number into its bucket. -/
def add (b : Buckets α) (x : α) (n : Nat) : Buckets α :=
  b.insert (hash x).toNat ((x, n) :: b.bucket x)

theorem number?_add (b : Buckets α) (x y : α) (n : Nat) :
    (b.add x n).number? y = if x = y then some n else b.number? y := by
  unfold number? add
  by_cases hxy : x = y
  · subst hxy
    simp [bucket]
  · by_cases hh : (hash x).toNat = (hash y).toNat
    · have hb : bucket b y = bucket b x := by rw [bucket, bucket, hh]
      have hne : (y == x) = false := by simpa using Ne.symm hxy
      rw [if_neg hxy, hb, bucket, Std.TreeMap.getElem?_insert, if_pos (by simp [hh]),
        Option.getD_some, List.lookup_cons, hne]
    · rw [if_neg hxy, bucket, Std.TreeMap.getElem?_insert, if_neg (by simpa using hh), bucket]

end Buckets

/-- Distinct values, each with its place in the order of first appearance. -/
structure Numbering (α : Type) [DecidableEq α] [Hashable α] where
  /-- The value of each number. -/
  values : Array α
  /-- The number of each value. -/
  numbers : Buckets α
  agree : ∀ (x : α) (n : Nat), numbers.number? x = some n ↔ values[n]? = some x

namespace Numbering

variable {α : Type} [DecidableEq α] [Hashable α]

/-- The numbering of no values. -/
def empty : Numbering α where
  values := #[]
  numbers := ∅
  agree := by simp [Buckets.number?, Buckets.bucket]

instance : Inhabited (Numbering α) := ⟨empty⟩

/-- How many values are numbered. -/
def size (s : Numbering α) : Nat := s.values.size

/-- The value with a number. -/
def get? (s : Numbering α) (n : Nat) : Option α := s.values[n]?

/-- The number of a value. -/
def number? (s : Numbering α) (x : α) : Option Nat := s.numbers.number? x

/-- The values in the order of their numbers. -/
def toList (s : Numbering α) : List α := s.values.toList

/-- Numbers a value that may be new, and returns its number. -/
def insert (s : Numbering α) (x : α) : Numbering α × Nat :=
  match h : s.numbers.number? x with
  | some n => (s, n)
  | none =>
    ({ values := s.values.push x
       numbers := s.numbers.add x s.values.size
       agree := by
        intro y n
        have hx : ∀ m, s.values[m]? ≠ some x := fun m hm => by
          rw [(s.agree x m).mpr hm] at h
          cases h
        have hs := s.agree y n
        rw [Buckets.number?_add, Array.getElem?_push]
        by_cases hxy : x = y
        · subst hxy
          have := hx n
          by_cases hn : n = s.values.size <;> simp_all
          omega
        · by_cases hn : n = s.values.size
          · subst hn
            simp [hxy, hs]
          · simp [hxy, hn, hs] },
     s.values.size)

/-- Numbers the values of a list in their order. -/
def ofList (xs : List α) : Numbering α :=
  xs.foldl (fun s x => (s.insert x).1) empty

/-! ### The two views -/

theorem number?_eq_some_iff {s : Numbering α} {x : α} {n : Nat} :
    s.number? x = some n ↔ s.get? n = some x :=
  s.agree x n

@[simp] theorem get?_empty (n : Nat) : (empty : Numbering α).get? n = none := by
  simp [get?, empty]

@[simp] theorem number?_empty (x : α) : (empty : Numbering α).number? x = none := by
  simp [number?, Buckets.number?, Buckets.bucket, empty]

/-- A numbered value is not numbered again. -/
theorem insert_of_number? {s : Numbering α} {x : α} {n : Nat} (h : s.number? x = some n) :
    s.insert x = (s, n) := by
  unfold insert
  unfold number? at h
  split
  · next m hm => simp_all
  · next hm => simp_all

/-- A new value takes the next number. -/
theorem values_insert_of_number? {s : Numbering α} {x : α} (h : s.number? x = none) :
    (s.insert x).1.values = s.values.push x ∧ (s.insert x).2 = s.size := by
  unfold insert
  unfold number? at h
  split
  · next m hm => simp_all
  · exact ⟨rfl, rfl⟩

/-- The number returned by an insertion is the inserted value's. -/
theorem get?_insert_snd (s : Numbering α) (x : α) :
    (s.insert x).1.get? (s.insert x).2 = some x := by
  cases h : s.number? x with
  | some n =>
    rw [insert_of_number? h]
    exact number?_eq_some_iff.mp h
  | none =>
    obtain ⟨hv, hn⟩ := values_insert_of_number? h
    simp [get?, hv, hn, size]

/-- Insertions keep every number already given. -/
theorem get?_insert_of_get? {s : Numbering α} {x y : α} {n : Nat} (h : s.get? n = some y) :
    (s.insert x).1.get? n = some y := by
  cases hx : s.number? x with
  | some m => rwa [insert_of_number? hx]
  | none =>
    have hn : n < s.values.size := by
      unfold get? at h
      exact (Array.getElem?_eq_some_iff.mp h).1
    simp only [get?, (values_insert_of_number? hx).1, Array.getElem?_push]
    rw [if_neg (by omega)]
    exact h

end Numbering

end Coscript
