import Coscript.Data.IdSet
import Coscript.Data.Numbering
import Coscript.Data.OrderedMap
import Mathlib.Data.Finset.Card
import Mathlib.Data.Finset.Powerset
import Mathlib.Data.Finset.Range
import Mathlib.Tactic.Lemma

/-!
# Laws of the containers

What the sets, numberings and ordered maps of the library do beyond single operations.

* `Numbering.Extends`: a numbering that grew out of another one, which is all that the searches of
  the library ever do to a numbering;
* `Numbering.get?_insert_iff`: the values of a numbering after an insertion;
* `Numbering.size_le_card`, `IdSet.size_le_card`: counting bounds, which searches end by;
* `OrderedMap.mem_entries_iff`: the entries of a map are its lookups.
-/

namespace Coscript

/-! ### Folds -/

section Folds

variable {σ α ε : Type}

/-- What every step of a fold preserves holds of its result. -/
lemma foldl_invariant {f : σ → α → σ} {P : σ → Prop} {xs : List α} {s : σ} (hs : P s)
    (step : ∀ s, ∀ x ∈ xs, P s → P (f s x)) : P (xs.foldl f s) := by
  induction xs generalizing s with
  | nil => exact hs
  | cons x xs ih =>
    rw [List.foldl_cons]
    exact ih (step s x (by simp) hs) fun s y hy => step s y (by simp [hy])

/-- A fold whose steps only grow the state, and that ends where it began, has no step that changes
the state. -/
lemma foldl_fixed {f : σ → α → σ} {le : σ → σ → Prop} (refl : ∀ s, le s s)
    (trans : ∀ {s t u}, le s t → le t u → le s u) (antisymm : ∀ {s t}, le s t → le t s → s = t)
    (grows : ∀ s x, le s (f s x)) {xs : List α} {s : σ} (h : xs.foldl f s = s) :
    ∀ x ∈ xs, f s x = s := by
  have foldl_le : ∀ (xs : List α) s, le s (xs.foldl f s) := fun xs => by
    induction xs with
    | nil => exact refl
    | cons x xs ih => exact fun s => trans (grows s x) (ih _)
  induction xs with
  | nil => simp
  | cons x xs ih =>
    rw [List.foldl_cons] at h
    have hx : f s x = s := by
      refine (antisymm (grows s x) ?_).symm
      have := foldl_le xs (f s x)
      rwa [h] at this
    rw [hx] at h
    simpa [hx] using ih h

/-- A demand that a step meets, and that later steps do not take back, is met in the result of a
fold. -/
lemma foldlM_demand {f : σ → α → Except ε σ} {P : σ → Prop} {Q : α → σ → Prop} {xs : List α}
    {s t : σ} (hs : P s)
    (step : ∀ s t, ∀ x ∈ xs, P s → f s x = .ok t → P t ∧ Q x t ∧ ∀ y, Q y s → Q y t)
    (h : xs.foldlM f s = .ok t) : P t ∧ (∀ x ∈ xs, Q x t) ∧ ∀ y, Q y s → Q y t := by
  induction xs generalizing s with
  | nil =>
    cases h
    exact ⟨hs, by simp, fun _ => id⟩
  | cons x xs ih =>
    rw [List.foldlM_cons] at h
    cases hx : f s x with
    | error e =>
      rw [hx] at h
      cases h
    | ok u =>
      rw [hx] at h
      obtain ⟨hu, hq, kept⟩ := step s u x (by simp) hs hx
      obtain ⟨ht, hxs, later⟩ := ih hu (fun s t y hy => step s t y (by simp [hy])) h
      refine ⟨ht, fun y hy => ?_, fun y hy => later y (kept y hy)⟩
      rcases List.mem_cons.mp hy with rfl | hy
      · exact later y hq
      · exact hxs y hy

/-- What every step of a fold that succeeds preserves holds of its result. -/
lemma foldlM_invariant {f : σ → α → Except ε σ} {P : σ → Prop} {xs : List α} {s t : σ} (hs : P s)
    (step : ∀ s t, ∀ x ∈ xs, P s → f s x = .ok t → P t) (h : xs.foldlM f s = .ok t) : P t :=
  (foldlM_demand (Q := fun _ _ => True) hs
    (fun s t x hx hP hf => ⟨step s t x hx hP hf, trivial, fun _ => id⟩) h).1

/-- A fold that fails does so in some step, from a state with what every step preserves. -/
lemma foldlM_error {f : σ → α → Except ε σ} {P : σ → Prop} {xs : List α} {s : σ} {e : ε} (hs : P s)
    (step : ∀ s t, ∀ x ∈ xs, P s → f s x = .ok t → P t) (h : xs.foldlM f s = .error e) :
    ∃ t, ∃ x ∈ xs, P t ∧ f t x = .error e := by
  induction xs generalizing s with
  | nil => cases h
  | cons x xs ih =>
    rw [List.foldlM_cons] at h
    cases hx : f s x with
    | error e' =>
      rw [hx] at h
      cases h
      exact ⟨s, x, List.mem_cons_self, hs, hx⟩
    | ok u =>
      rw [hx] at h
      have hu := step s u x List.mem_cons_self hs hx
      obtain ⟨t, y, hy, ht, hf⟩ := ih hu (fun s t y hy => step s t y (List.mem_cons_of_mem x hy)) h
      exact ⟨t, y, List.mem_cons_of_mem x hy, ht, hf⟩

end Folds

/-- A computation in two parts succeeds if both of them do. -/
lemma bind_eq_ok_iff {ε α β : Type} {x : Except ε α} {f : α → Except ε β} {b : β} :
    (x >>= f) = .ok b ↔ ∃ a, x = .ok a ∧ f a = .ok b := by
  cases x with
  | error e => simp [bind, Except.bind]
  | ok a => simp [bind, Except.bind]

/-- A computation in two parts fails if one of them does. -/
lemma bind_eq_error_iff {ε α β : Type} {x : Except ε α} {f : α → Except ε β} {e : ε} :
    (x >>= f) = .error e ↔ x = .error e ∨ ∃ a, x = .ok a ∧ f a = .error e := by
  cases x with
  | error e => simp [bind, Except.bind]
  | ok a => simp [bind, Except.bind]

/-- What `mapM` gives is related to what it was given, one for one, if single results are. -/
lemma forall₂_of_mapM_of_mem {ε α β : Type} {f : α → Except ε β} {R : α → β → Prop} {xs : List α}
    {ys : List β} (h : xs.mapM f = .ok ys) (hR : ∀ x ∈ xs, ∀ y, f x = .ok y → R x y) :
    List.Forall₂ R xs ys := by
  induction xs generalizing ys with
  | nil =>
    cases h
    exact .nil
  | cons x xs ih =>
    rw [List.mapM_cons] at h
    obtain ⟨y, hy, h⟩ := bind_eq_ok_iff.mp h
    obtain ⟨ys, hys, h⟩ := bind_eq_ok_iff.mp h
    cases h
    exact .cons (hR x (by simp) y hy) (ih hys fun z hz => hR z (by simp [hz]))

/-- What `mapM` gives corresponds to what it was given, one for one. -/
lemma forall₂_of_mapM {ε α β : Type} {f : α → Except ε β} {xs : List α} {ys : List β}
    (h : xs.mapM f = .ok ys) : List.Forall₂ (fun x y => f x = .ok y) xs ys :=
  forall₂_of_mapM_of_mem h fun _ _ _ => id

/-- Each result of `mapM` comes from somewhere. -/
lemma exists_of_mem_mapM {ε α β : Type} {f : α → Except ε β} {xs : List α} {ys : List β}
    (h : xs.mapM f = .ok ys) {y : β} (hy : y ∈ ys) : ∃ x ∈ xs, f x = .ok y := by
  have hpairs := forall₂_of_mapM h
  obtain ⟨i, hi, rfl⟩ := List.mem_iff_getElem.mp hy
  have hxs : i < xs.length := hpairs.length_eq ▸ hi
  exact ⟨xs[i], List.getElem_mem hxs, hpairs.get hxs hi⟩

/-! ### Sets -/

namespace IdSet

@[simp] lemma mem_ofList {n : Nat} {xs : List Nat} : n ∈ ofList xs ↔ n ∈ xs := by
  have general : ∀ (xs : List Nat) (s : IdSet), n ∈ xs.foldl insert s ↔ n ∈ s ∨ n ∈ xs := by
    intro xs
    induction xs with
    | nil => simp
    | cons x xs ih =>
      intro s
      rw [List.foldl_cons, ih, mem_insert, List.mem_cons]
      tauto
  simpa [ofList] using general xs empty

lemma nodup_toList (s : IdSet) : s.toList.Nodup := s.increasing.imp fun h => Nat.ne_of_lt h

/-- A set with members from a finite set is at most as large. -/
lemma size_le_card {s : IdSet} {f : Finset Nat} (h : ∀ n ∈ s, n ∈ f) : s.size ≤ f.card := by
  rw [size, ← List.toFinset_card_of_nodup s.nodup_toList]
  exact Finset.card_le_card fun n hn => h n (List.mem_toFinset.mp hn)

/-- A set with the members of another one that is no larger is the same set. -/
lemma eq_of_size_le {s t : IdSet} (h : ∀ n ∈ s, n ∈ t) (hsize : t.size ≤ s.size) : s = t := by
  have hsub : s.toList.toFinset ⊆ t.toList.toFinset := fun n hn =>
    List.mem_toFinset.mpr (h n (List.mem_toFinset.mp hn))
  have hcard : t.toList.toFinset.card ≤ s.toList.toFinset.card := by
    rwa [List.toFinset_card_of_nodup t.nodup_toList, List.toFinset_card_of_nodup s.nodup_toList]
  have heq := Finset.eq_of_subset_of_card_le hsub hcard
  refine ext fun n => ⟨h n, fun hn => ?_⟩
  exact List.mem_toFinset.mp (heq ▸ List.mem_toFinset.mpr hn)

lemma size_insert {s : IdSet} {n : Nat} (h : n ∉ s) : (s.insert n).size = s.size + 1 := by
  have hp : (s.insert n).toList.Perm (n :: s.toList) := by
    refine (List.perm_ext_iff_of_nodup (nodup_toList _) ?_).mpr fun k => ?_
    · exact List.nodup_cons.mpr ⟨h, nodup_toList _⟩
    · exact mem_insert.trans List.mem_cons.symm
  simpa [size] using hp.length_eq

end IdSet

/-! ### Maps -/

namespace OrderedMap

variable {κ ν : Type} [DecidableEq κ]

lemma find_of_mem {es : List (κ × ν)} {k : κ} {v : ν} (hn : (es.map Prod.fst).Nodup)
    (h : (k, v) ∈ es) : find k es = some v := by
  induction es with
  | nil => cases h
  | cons e es ih =>
    obtain ⟨hfresh, hn⟩ := List.nodup_cons.mp hn
    rcases List.mem_cons.mp h with rfl | h
    · simp [find]
    · have : e.1 ≠ k := fun he => hfresh (List.mem_map.mpr ⟨_, h, he.symm⟩)
      rw [find, if_neg this, ih hn h]

lemma mem_of_find {es : List (κ × ν)} {k : κ} {v : ν} (h : find k es = some v) :
    (k, v) ∈ es := by
  induction es with
  | nil => cases h
  | cons e es ih =>
    rw [find] at h
    split at h
    · next he =>
      cases h
      exact List.mem_cons.mpr (.inl (by rw [← he]))
    · exact List.mem_cons_of_mem _ (ih h)

/-- The entries of a map are what its lookups find. -/
lemma mem_entries_iff {m : OrderedMap κ ν} {k : κ} {v : ν} :
    (k, v) ∈ m.entries ↔ m.get? k = some v :=
  ⟨find_of_mem m.nodup, mem_of_find⟩

lemma mem_keys_iff {m : OrderedMap κ ν} {k : κ} : k ∈ m.keys ↔ ∃ v, m.get? k = some v := by
  simp only [keys, List.mem_map, Prod.exists, mem_entries_iff]
  constructor
  · rintro ⟨k, v, h, rfl⟩
    exact ⟨v, h⟩
  · rintro ⟨v, h⟩
    exact ⟨k, v, h, rfl⟩

lemma get?_insert_self (m : OrderedMap κ ν) (k : κ) (v : ν) : (m.insert k v).get? k = some v := by
  rw [get?_insert, if_pos rfl]

/-- A lookup after a key has been forgotten finds nothing for that key. -/
lemma get?_erase (m : OrderedMap κ ν) (k k' : κ) :
    (m.erase k).get? k' = if k' = k then none else m.get? k' := by
  split
  · next h =>
    refine Option.eq_none_iff_forall_ne_some.mpr fun v hv => ?_
    obtain ⟨-, hne⟩ := List.mem_filter.mp (mem_entries_iff.mpr hv)
    exact of_decide_eq_true hne h
  · next h =>
    refine Option.ext fun v => ?_
    rw [← mem_entries_iff, ← mem_entries_iff, erase, List.mem_filter]
    exact and_iff_left (decide_eq_true h)

/-- What is found in the map of a list is in the list. -/
lemma mem_of_get?_ofList {es : List (κ × ν)} {k : κ} {v : ν} (h : (ofList es).get? k = some v) :
    (k, v) ∈ es := by
  have general : ∀ (es : List (κ × ν)) (m : OrderedMap κ ν),
      (es.foldl (fun m e => m.insert e.1 e.2) m).get? k = some v →
        (k, v) ∈ es ∨ m.get? k = some v := by
    intro es
    induction es with
    | nil => exact fun m h => .inr h
    | cons e es ih =>
      intro m h
      rcases ih _ h with h | h
      · exact .inl (List.mem_cons_of_mem e h)
      · rw [get?_insert] at h
        split at h
        · next heq =>
          cases h
          exact .inl (by simp [← heq])
        · exact .inr h
  exact (general es empty h).resolve_right (by simp)

/-- A map is determined by the order of its keys and by its lookups. -/
lemma eq_of_get? {m n : OrderedMap κ ν} (hk : m.keys = n.keys)
    (h : ∀ k ∈ m.keys, m.get? k = n.get? k) : m = n := by
  have general : ∀ (es fs : List (κ × ν)), (es.map Prod.fst).Nodup →
      es.map Prod.fst = fs.map Prod.fst →
      (∀ k ∈ es.map Prod.fst, find k es = find k fs) → es = fs := by
    intro es
    induction es with
    | nil => intro fs _ hfs _; simpa using hfs.symm
    | cons e es ih =>
      intro fs hn hfs hfind
      cases fs with
      | nil => simp at hfs
      | cons f fs =>
        simp only [List.map_cons, List.cons.injEq] at hfs
        obtain ⟨hfresh, hn⟩ := List.nodup_cons.mp hn
        have he : e = f := by
          have := hfind e.1 (by simp)
          rw [find, if_pos rfl, find, if_pos hfs.1.symm] at this
          exact Prod.ext hfs.1 (Option.some.inj this)
        subst he
        congr 1
        refine ih fs hn hfs.2 fun k hmem => ?_
        have hne : e.1 ≠ k := fun he => hfresh (he ▸ hmem)
        have := hfind k (List.mem_cons_of_mem _ hmem)
        rwa [find, if_neg hne, find, if_neg hne] at this
  exact ext (general _ _ m.nodup hk h)

end OrderedMap

/-! ### Numberings -/

namespace Numbering

variable {α : Type} [DecidableEq α] [Hashable α]

/-- A numbering in which every number of another one still has its value. -/
def Extends (s t : Numbering α) : Prop := ∀ n x, s.get? n = some x → t.get? n = some x

lemma Extends.refl (s : Numbering α) : s.Extends s := fun _ _ => id

lemma Extends.trans {s t u : Numbering α} (h : s.Extends t) (k : t.Extends u) : s.Extends u :=
  fun n x hx => k n x (h n x hx)

lemma extends_insert (s : Numbering α) (x : α) : s.Extends (s.insert x).1 :=
  fun _ _ => get?_insert_of_get?

/-- A value has one number. -/
lemma get?_inj {s : Numbering α} {m n : Nat} {x : α} (hm : s.get? m = some x)
    (hn : s.get? n = some x) : m = n := by
  rw [← number?_eq_some_iff] at hm hn
  exact Option.some.inj (hm.symm.trans hn)

lemma lt_size_of_get? {s : Numbering α} {n : Nat} {x : α} (h : s.get? n = some x) :
    n < s.size :=
  (Array.getElem?_eq_some_iff.mp h).1

lemma exists_get? {s : Numbering α} {n : Nat} (h : n < s.size) : ∃ x, s.get? n = some x :=
  ⟨_, Array.getElem?_eq_getElem h⟩

/-- After an insertion the numbers have their old values, and the returned number has the inserted
one. -/
lemma get?_insert_iff {s : Numbering α} {x y : α} {n : Nat} :
    (s.insert x).1.get? n = some y ↔ s.get? n = some y ∨ n = (s.insert x).2 ∧ y = x := by
  constructor
  · intro h
    by_cases hn : n = (s.insert x).2
    · subst hn
      rw [get?_insert_snd] at h
      exact .inr ⟨rfl, (Option.some.inj h).symm⟩
    · refine .inl ?_
      cases hx : s.number? x with
      | some m => rwa [insert_of_number? hx] at h
      | none =>
        obtain ⟨hv, hm⟩ := values_insert_of_number? hx
        rw [hm, size] at hn
        rw [get?, hv, Array.getElem?_push, if_neg hn] at h
        exact h
  · rintro (h | ⟨rfl, rfl⟩)
    · exact get?_insert_of_get? h
    · exact get?_insert_snd _ _

/-- The numbered values of a list are its members. -/
lemma exists_get?_ofList {xs : List α} {x : α} :
    (∃ n, (ofList xs).get? n = some x) ↔ x ∈ xs := by
  have general : ∀ (xs : List α) (s : Numbering α),
      (∃ n, (xs.foldl (fun s x => (s.insert x).1) s).get? n = some x) ↔
        (∃ n, s.get? n = some x) ∨ x ∈ xs := by
    intro xs
    induction xs with
    | nil => simp
    | cons y ys ih =>
      intro s
      rw [List.foldl_cons, ih, List.mem_cons]
      simp only [get?_insert_iff]
      constructor
      · rintro (⟨n, h | ⟨-, h⟩⟩ | h)
        · exact .inl ⟨n, h⟩
        · exact .inr (.inl h)
        · exact .inr (.inr h)
      · rintro (⟨n, h⟩ | h | h)
        · exact .inl ⟨n, .inl h⟩
        · exact .inl ⟨_, .inr ⟨rfl, h⟩⟩
        · exact .inr h
  simpa [ofList] using general xs empty

lemma mem_toList_iff {s : Numbering α} {x : α} : x ∈ s.toList ↔ ∃ n, s.get? n = some x := by
  simp [toList, get?, Array.mem_iff_getElem?]

lemma nodup_toList (s : Numbering α) : s.toList.Nodup := by
  rw [List.nodup_iff_pairwise_ne, List.pairwise_iff_getElem]
  intro m n hm hn hlt he
  have hm' : s.get? m = some s.toList[m] := by simp [get?, toList]
  have hn' : s.get? n = some s.toList[n] := by simp [get?, toList]
  rw [he] at hm'
  exact Nat.ne_of_lt hlt (get?_inj hm' hn')

/-- A numbering of members of a finite set is at most as large. -/
lemma size_le_card {s : Numbering α} {f : Finset α} (h : ∀ n x, s.get? n = some x → x ∈ f) :
    s.size ≤ f.card := by
  have hsize : s.size = s.toList.toFinset.card := by
    rw [List.toFinset_card_of_nodup s.nodup_toList]
    simp [size, toList]
  rw [hsize]
  refine Finset.card_le_card fun x hx => ?_
  obtain ⟨n, hn⟩ := mem_toList_iff.mp (List.mem_toFinset.mp hx)
  exact h n x hn

end Numbering

end Coscript
