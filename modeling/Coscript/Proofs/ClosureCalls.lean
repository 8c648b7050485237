import Coscript.Proofs.Closure
import Coscript.Proofs.Completeness
import Mathlib.Order.Bounds.Basic

/-!
# Closures are least, whatever was asked before

A cache answers three kinds of calls: an item is stored, the closure of one numbered item is asked
for, or that of a set of them. Each call may number more items and may keep more closures. What a
call returns does not show this: numbers stay with their items, and a closure is the least set that
holds the given items and whatever its items imply, after any calls before.

* `Discipline.isLeast_reached`: what some items reach is the least closed set above them;
* `ClosureCache.Evolves`: a sequence of calls, each with numbers that have been given out by then;
* `ClosureCache.Evolves.later`: what every such sequence keeps;
* `Grammar.closures_least`: what caches promise after any calls.
-/

namespace Coscript

variable {L : Type}

namespace Discipline

/-- The sets that hold some items and, with each of their items, what it implies. -/
def ClosedAbove (d : Discipline L) (g : Grammar) (s : FirstFollow) (K : Set (Item L)) :
    Set (Set (Item L)) :=
  {S | K ⊆ S ∧ ∀ i ∈ S, ∀ j ∈ d.implied g s i, j ∈ S}

/-- **What some items reach by implications** is the least closed set that holds them. -/
theorem isLeast_reached (d : Discipline L) (g : Grammar) (s : FirstFollow) (K : Set (Item L)) :
    IsLeast (d.ClosedAbove g s K) {j | ∃ i ∈ K, d.Reaches g s i j} := by
  refine ⟨⟨fun i hi => ⟨i, hi, .refl⟩, ?_⟩, ?_⟩
  · rintro j ⟨i, hi, hr⟩ k hk
    exact ⟨i, hi, hr.tail hk⟩
  · rintro S ⟨hK, hclosed⟩ j ⟨i, hi, hr⟩
    induction hr with
    | refl => exact hK hi
    | tail _ hk ih => exact hclosed _ ih _ hk

end Discipline

variable [DecidableEq L] [Hashable L]
variable {d : Discipline L} {g : Grammar} {s : FirstFollow}

namespace ClosureCache

/-- The items with the numbers in a set. -/
def itemsAt (c : ClosureCache L) (found : IdSet) : Set (Item L) :=
  {i | ∃ n ∈ found, c.items.get? n = some i}

/-- A set that lists the items with a property is a set of these items. -/
lemma itemsAt_of_lists {c : ClosureCache L} {found : IdSet} {P : Item L → Prop}
    (h : c.items.Lists found P) : c.itemsAt found = {i | P i} := by
  ext i
  constructor
  · rintro ⟨n, hn, hi⟩
    exact (h.mem_iff hi).mp hn
  · exact fun hp => h.complete i hp

/-! ### Calls -/

/-- A call on a cache. -/
inductive Call (L : Type) where
  | store (i : Item L)
  | closureOf (n : Nat)
  | closure (kernel : IdSet)

/-- The numbers that a call is given. -/
def Call.numbers : Call L → List Nat
  | .store _ => []
  | .closureOf n => [n]
  | .closure kernel => kernel.toList

/-- A cache accepts calls with numbers that it has given out. -/
def Accepts (c : ClosureCache L) (call : Call L) : Prop := ∀ n ∈ call.numbers, n < c.items.size

instance (c : ClosureCache L) (call : Call L) : Decidable (c.Accepts call) :=
  inferInstanceAs (Decidable (∀ n ∈ call.numbers, n < c.items.size))

/-- The cache that a call leaves. -/
def after (d : Discipline L) (g : Grammar) (s : FirstFollow) (c : ClosureCache L) :
    Call L → ClosureCache L
  | .store i => (c.store i).1
  | .closureOf n => (c.closureOf d g s n).1
  | .closure kernel => (c.closure d g s kernel).1

/-- One cache becomes another one by a sequence of calls. -/
inductive Evolves (d : Discipline L) (g : Grammar) (s : FirstFollow) :
    ClosureCache L → List (Call L) → ClosureCache L → Prop
  | nil {c : ClosureCache L} : Evolves d g s c [] c
  | cons {c c' : ClosureCache L} {call : Call L} {calls : List (Call L)} (hcall : c.Accepts call)
      (h : Evolves d g s (c.after d g s call) calls c') : Evolves d g s c (call :: calls) c'

/-- **A call keeps what is known valid and all numbers.** -/
lemma after_spec (b : LookaheadBound d g s) {c : ClosureCache L} (hc : c.Valid d g s)
    {call : Call L} (hcall : c.Accepts call) :
    (c.after d g s call).Valid d g s ∧ c.items.Extends (c.after d g s call).items := by
  have hnumbered : ∀ n ∈ call.numbers, ∃ i, c.items.get? n = some i := fun n hn =>
    Numbering.exists_get? (hcall n hn)
  cases call with
  | store i => exact ⟨hc.store i, Numbering.extends_insert c.items i⟩
  | closureOf n =>
    obtain ⟨i, hi⟩ := hnumbered n (List.mem_singleton_self n)
    obtain ⟨hvalid, hlater, -⟩ := closureOf_spec b hc hi
    exact ⟨hvalid, hlater.items⟩
  | closure kernel =>
    obtain ⟨hvalid, hlater, -⟩ := closureAlong_spec b hc hnumbered
    exact ⟨hvalid, hlater.items⟩

/-- **A sequence of calls keeps what is known valid and all numbers.** -/
theorem Evolves.later (b : LookaheadBound d g s) {c c' : ClosureCache L} {calls : List (Call L)}
    (h : Evolves d g s c calls c') (hc : c.Valid d g s) :
    c'.Valid d g s ∧ c.items.Extends c'.items := by
  induction h with
  | nil => exact ⟨hc, .refl _⟩
  | cons hcall _ ih =>
    obtain ⟨hvalid, hext⟩ := after_spec b hc hcall
    obtain ⟨hvalid', hext'⟩ := ih hvalid
    exact ⟨hvalid', hext.trans hext'⟩

/-! ### Answers -/

/-- Seeds that are the members of a set reach what the items of the set reach. -/
lemma reached_iff {c : ClosureCache L} {kernel : IdSet} {seeds : List Nat}
    (hseeds : ∀ n, n ∈ seeds ↔ n ∈ kernel) {j : Item L} :
    c.Reached d g s seeds j ↔ ∃ i ∈ c.itemsAt kernel, d.Reaches g s i j := by
  constructor
  · rintro ⟨n, hn, i, hi, hr⟩
    exact ⟨i, ⟨n, (hseeds n).mp hn, hi⟩, hr⟩
  · rintro ⟨i, ⟨n, hn, hi⟩, hr⟩
    exact ⟨n, (hseeds n).mpr hn, i, hi, hr⟩

/-- The closures of the seeds, taken in any order, make up what the items of the set reach. -/
lemma lists_closureAlong (b : LookaheadBound d g s) {c : ClosureCache L} (hc : c.Valid d g s)
    {kernel : IdSet} (hkernel : ∀ n ∈ kernel, n < c.items.size) {seeds : List Nat}
    (hseeds : ∀ n, n ∈ seeds ↔ n ∈ kernel) :
    (c.closureAlong d g s seeds).1.items.Lists (c.closureAlong d g s seeds).2
      fun j => ∃ i ∈ c.itemsAt kernel, d.Reaches g s i j := by
  obtain ⟨-, -, hlists⟩ := closureAlong_spec b hc fun n hn =>
    Numbering.exists_get? (hkernel n ((hseeds n).mp hn))
  exact hlists.congr fun j => reached_iff hseeds

/-- The closure of a set lists what its items reach. -/
lemma lists_closure (b : LookaheadBound d g s) {c : ClosureCache L} (hc : c.Valid d g s)
    {kernel : IdSet} (hkernel : ∀ n ∈ kernel, n < c.items.size) :
    (c.closure d g s kernel).1.items.Lists (c.closure d g s kernel).2
      fun j => ∃ i ∈ c.itemsAt kernel, d.Reaches g s i j :=
  lists_closureAlong b hc hkernel fun _ => Iff.rfl

/-- The items of a set are the same in a cache that numbers more items. -/
lemma itemsAt_of_extends {c c' : ClosureCache L} (hext : c.items.Extends c'.items) {found : IdSet}
    (hfound : ∀ n ∈ found, n < c.items.size) : c'.itemsAt found = c.itemsAt found := by
  ext i
  constructor
  · rintro ⟨n, hn, hi⟩
    obtain ⟨j, hj⟩ := Numbering.exists_get? (hfound n hn)
    cases hi.symm.trans (hext n j hj)
    exact ⟨n, hn, hj⟩
  · rintro ⟨n, hn, hi⟩
    exact ⟨n, hn, hext n i hi⟩

/-- **An answer does not change**: a later cache finds the same numbers for the closure of any items
that reach the same ones. -/
lemma closureAlong_eq (b : LookaheadBound d g s) {c c' : ClosureCache L} {found : IdSet}
    {P : Item L → Prop} (hlists : c.items.Lists found P) (hext : c.items.Extends c'.items)
    (hc' : c'.Valid d g s) {kernel : IdSet} (hkernel : ∀ n ∈ kernel, n < c'.items.size)
    {seeds : List Nat} (hseeds : ∀ n, n ∈ seeds ↔ n ∈ kernel)
    (hP : ∀ j, (∃ i ∈ c'.itemsAt kernel, d.Reaches g s i j) ↔ P j) :
    (c'.closureAlong d g s seeds).2 = found := by
  obtain ⟨-, hlater, -⟩ := closureAlong_spec b hc' fun n hn =>
    Numbering.exists_get? (hkernel n ((hseeds n).mp hn))
  exact ((lists_closureAlong b hc' hkernel hseeds).congr hP).unique
    (hlists.extend (hext.trans hlater.items))

/-- The items of an answer. -/
def answer (r : ClosureCache L × IdSet) : Set (Item L) := r.1.itemsAt r.2

/-- What a cache promises that has come about by some calls. -/
structure Dependable (d : Discipline L) (g : Grammar) (s : FirstFollow) (c : ClosureCache L) :
    Prop where
  /-- A stored item keeps the number that is returned for it, and no other item gets it. -/
  stored : ∀ i calls c', Evolves d g s (c.store i).1 calls c' →
    c'.items.get? (c.store i).2 = some i ∧ c'.store i = (c', (c.store i).2) ∧
      ∀ j, (c'.store j).2 = (c.store i).2 → j = i
  /-- So do the items that closures have numbered. -/
  kept : ∀ n i, c.items.get? n = some i → ∀ calls c', Evolves d g s c calls c' →
    c'.items.get? n = some i ∧ c'.store i = (c', n) ∧ ∀ j, (c'.store j).2 = n → j = i
  /-- The search for the closure of an item ends. -/
  ends : ∀ n < c.items.size,
    (Search.run d g s (closureBound d g) (.seeded c.items n)).pending = []
  /-- The closure of an item is least. -/
  closureOf_least : ∀ n i, c.items.get? n = some i →
    IsLeast (d.ClosedAbove g s {i}) (answer (c.closureOf d g s n))
  /-- The closure of a set of items is least. -/
  closure_least : ∀ kernel : IdSet, (∀ n ∈ kernel, n < c.items.size) →
    IsLeast (d.ClosedAbove g s (c.itemsAt kernel)) (answer (c.closure d g s kernel))
  /-- Nothing but numbers that have been given out is returned. -/
  numbered : ∀ kernel : IdSet, (∀ n ∈ kernel, n < c.items.size) →
    ∀ n ∈ (c.closure d g s kernel).2, n < (c.closure d g s kernel).1.items.size
  /-- The closures of the seeds make up the closure of the set in whichever order they are taken. -/
  order : ∀ (kernel : IdSet) (seeds : List Nat), (∀ n ∈ kernel, n < c.items.size) →
    (∀ n, n ∈ seeds ↔ n ∈ kernel) →
    answer (c.closureAlong d g s seeds) = answer (c.closure d g s kernel)
  /-- After any further calls, the answer for an item is the same. -/
  closureOf_again : ∀ n < c.items.size, ∀ calls c',
    Evolves d g s (c.closureOf d g s n).1 calls c' →
    (c'.closureOf d g s n).2 = (c.closureOf d g s n).2
  /-- After any further calls, the answer for a set is the same, also if the closure of the answer
  is asked for, and if the seeds are taken one by one in any order. -/
  closure_again : ∀ kernel : IdSet, (∀ n ∈ kernel, n < c.items.size) → ∀ calls c',
    Evolves d g s (c.closure d g s kernel).1 calls c' →
    (c'.closure d g s kernel).2 = (c.closure d g s kernel).2 ∧
      (c'.closure d g s (c.closure d g s kernel).2).2 = (c.closure d g s kernel).2 ∧
      ∀ seeds : List Nat, (∀ n, n ∈ seeds ↔ n ∈ kernel) →
        (c'.closureAlong d g s seeds).2 = (c.closure d g s kernel).2
  /-- More items have a larger closure, whatever calls it is asked for after. -/
  monotone : ∀ calls c', Evolves d g s .empty calls c' → ∀ kernel kernel' : IdSet,
    (∀ n ∈ kernel, n < c.items.size) → (∀ n ∈ kernel', n < c'.items.size) →
    c.itemsAt kernel ⊆ c'.itemsAt kernel' →
    answer (c.closure d g s kernel) ⊆ answer (c'.closure d g s kernel')

/-- The answer for a set is what its items reach, in whichever order the seeds are taken. -/
lemma answer_closureAlong (b : LookaheadBound d g s) {c : ClosureCache L} (hc : c.Valid d g s)
    {kernel : IdSet} (hkernel : ∀ n ∈ kernel, n < c.items.size) {seeds : List Nat}
    (hseeds : ∀ n, n ∈ seeds ↔ n ∈ kernel) :
    answer (c.closureAlong d g s seeds) = {j | ∃ i ∈ c.itemsAt kernel, d.Reaches g s i j} :=
  itemsAt_of_lists (lists_closureAlong b hc hkernel hseeds)

lemma answer_closure (b : LookaheadBound d g s) {c : ClosureCache L} (hc : c.Valid d g s)
    {kernel : IdSet} (hkernel : ∀ n ∈ kernel, n < c.items.size) :
    answer (c.closure d g s kernel) = {j | ∃ i ∈ c.itemsAt kernel, d.Reaches g s i j} :=
  itemsAt_of_lists (lists_closure b hc hkernel)

/-- An item keeps its number, and no other item gets it. -/
lemma store_of_get? {c : ClosureCache L} {n : Nat} {i : Item L} (hi : c.items.get? n = some i) :
    c.store i = (c, n) ∧ ∀ j, (c.store j).2 = n → j = i := by
  refine ⟨?_, fun j hj => ?_⟩
  · rw [store, Numbering.insert_of_number? (Numbering.number?_eq_some_iff.mpr hi)]
  · have hstored : (c.store j).1.items.get? (c.store j).2 = some j :=
      Numbering.get?_insert_snd c.items j
    rw [hj] at hstored
    exact Option.some.inj (hstored.symm.trans (Numbering.extends_insert c.items j n i hi))

/-- After any calls an item has its number, and no other item gets it. -/
lemma Evolves.kept (b : LookaheadBound d g s) {c c' : ClosureCache L} {calls : List (Call L)}
    (h : Evolves d g s c calls c') (hc : c.Valid d g s) {n : Nat} {i : Item L}
    (hi : c.items.get? n = some i) :
    c'.items.get? n = some i ∧ c'.store i = (c', n) ∧ ∀ j, (c'.store j).2 = n → j = i := by
  obtain ⟨-, hext⟩ := h.later b hc
  exact ⟨hext n i hi, store_of_get? (hext n i hi)⟩

/-- The closure of an item is the same after any further calls. -/
lemma closureOf_again (b : LookaheadBound d g s) {c : ClosureCache L} (hc : c.Valid d g s) {n : Nat}
    (hn : n < c.items.size) {calls : List (Call L)} {c' : ClosureCache L}
    (h : Evolves d g s (c.closureOf d g s n).1 calls c') :
    (c'.closureOf d g s n).2 = (c.closureOf d g s n).2 := by
  obtain ⟨i, hi⟩ := Numbering.exists_get? hn
  obtain ⟨hvalid, hlater, hlists⟩ := closureOf_spec b hc hi
  obtain ⟨hvalid', hext⟩ := h.later b hvalid
  obtain ⟨-, hlater', hlists'⟩ := closureOf_spec b hvalid' (hext n i (hlater.items n i hi))
  exact hlists'.unique (hlists.extend (hext.trans hlater'.items))

/-- The closure of a set is the same after any further calls, and it is its own closure. -/
lemma closure_again (b : LookaheadBound d g s) {c : ClosureCache L} (hc : c.Valid d g s)
    {kernel : IdSet} (hkernel : ∀ n ∈ kernel, n < c.items.size) {calls : List (Call L)}
    {c' : ClosureCache L} (h : Evolves d g s (c.closure d g s kernel).1 calls c') :
    (∀ seeds : List Nat, (∀ n, n ∈ seeds ↔ n ∈ kernel) →
      (c'.closureAlong d g s seeds).2 = (c.closure d g s kernel).2) ∧
      (c'.closure d g s (c.closure d g s kernel).2).2 = (c.closure d g s kernel).2 := by
  have hnumbered : ∀ n ∈ kernel.toList, ∃ i, c.items.get? n = some i := fun n hn =>
    Numbering.exists_get? (hkernel n hn)
  obtain ⟨hvalid, hlater, -⟩ := closureAlong_spec b hc hnumbered
  have hlists := lists_closure b hc hkernel
  obtain ⟨hvalid', hext⟩ := h.later b hvalid
  have hlists' := hlists.extend hext
  constructor
  · intro seeds hseeds
    have hkernel' : ∀ n ∈ kernel, n < c'.items.size := fun n hn => by
      obtain ⟨i, hi⟩ := hnumbered n hn
      exact Numbering.lt_size_of_get? (hext n i (hlater.items n i hi))
    refine closureAlong_eq b hlists hext hvalid' hkernel' hseeds fun j => ?_
    rw [itemsAt_of_extends (hlater.items.trans hext) hkernel]
  · have hfound : ∀ n ∈ (c.closure d g s kernel).2, n < c'.items.size := fun n hn => by
      obtain ⟨i, hi, -⟩ := hlists'.sound n hn
      exact Numbering.lt_size_of_get? hi
    refine closureAlong_eq b hlists hext hvalid' hfound (fun _ => Iff.rfl) fun j => ?_
    -- What the items of the answer reach is reached by the seeds already.
    rw [itemsAt_of_lists hlists']
    constructor
    · rintro ⟨i, ⟨k, hk, hr⟩, hr'⟩
      exact ⟨k, hk, hr.trans hr'⟩
    · exact fun hj => ⟨j, hj, .refl⟩

/-- **A cache that has come about by calls is dependable.** -/
theorem Evolves.dependable (b : LookaheadBound d g s) {c : ClosureCache L} {calls : List (Call L)}
    (h : Evolves d g s .empty calls c) : c.Dependable d g s := by
  obtain ⟨hc, -⟩ := h.later b valid_empty
  exact {
    stored := fun i calls c' hc' => hc'.kept b (hc.store i) (Numbering.get?_insert_snd c.items i)
    kept := fun n i hi calls c' hc' => hc'.kept b hc hi
    ends := fun n hn => by
      obtain ⟨i, hi⟩ := Numbering.exists_get? hn
      exact (Search.run_seeded b hi).1
    closureOf_least := fun n i hi => by
      obtain ⟨-, -, hlists⟩ := closureOf_spec b hc hi
      rw [answer, itemsAt_of_lists hlists]
      simpa using d.isLeast_reached g s {i}
    closure_least := fun kernel hkernel => by
      rw [answer_closure b hc hkernel]
      exact d.isLeast_reached g s _
    numbered := fun kernel hkernel n hn => by
      obtain ⟨i, hi, -⟩ := (lists_closure b hc hkernel).sound n hn
      exact Numbering.lt_size_of_get? hi
    order := fun kernel seeds hkernel hseeds => by
      rw [answer_closureAlong b hc hkernel hseeds, answer_closure b hc hkernel]
    closureOf_again := fun n hn calls c' hc' => closureOf_again b hc hn hc'
    closure_again := fun kernel hkernel calls c' hc' => by
      obtain ⟨hsame, hidempotent⟩ := closure_again b hc hkernel hc'
      exact ⟨hsame kernel.toList fun _ => Iff.rfl, hidempotent, hsame⟩
    monotone := fun calls c' hc' kernel kernel' hkernel hkernel' hsub => by
      obtain ⟨hc', -⟩ := hc'.later b valid_empty
      rw [answer_closure b hc hkernel, answer_closure b hc' hkernel']
      rintro j ⟨i, hi, hr⟩
      exact ⟨i, hsub hi, hr⟩ }

end ClosureCache

open ClosureCache

/-- **Closures are least, whatever was asked before.** A cache that has come about by any calls, with
or without lookaheads, keeps the numbers of items apart and forever, and answers with the least sets
that hold the given items and whatever their members imply. -/
theorem Grammar.closures_least (g : Grammar) :
    (∀ calls c, Evolves .plain g g.firstFollow .empty calls c → c.Dependable .plain g g.firstFollow) ∧
    (∀ calls c, Evolves .canonical g g.firstFollow .empty calls c →
      c.Dependable .canonical g g.firstFollow) :=
  ⟨fun _ _ h => h.dependable (LookaheadBound.plain g g.firstFollow),
    fun _ _ h => h.dependable (LookaheadBound.canonical g)⟩

/-- In the lists of identifiers the closure of the start item has five items, one of which is there
already when it is asked for. -/
theorem Grammar.closures_least_identifierLists : ∃ c,
    Evolves .canonical identifierLists identifierLists.firstFollow .empty
      [.store (Discipline.canonical.startItem 0), .store ⟨2, 0, 2⟩, .closureOf 1] c ∧
    (c.closure .canonical identifierLists identifierLists.firstFollow (.ofList [0])).2.size = 5 ∧
    IsLeast (Discipline.canonical.ClosedAbove identifierLists identifierLists.firstFollow
        (c.itemsAt (.ofList [0])))
      (answer (c.closure .canonical identifierLists identifierLists.firstFollow (.ofList [0]))) := by
  have h : Evolves .canonical identifierLists identifierLists.firstFollow .empty
      [.store (Discipline.canonical.startItem 0), .store ⟨2, 0, 2⟩, .closureOf 1] _ :=
    .cons (by decide +kernel) (.cons (by decide +kernel) (.cons (by decide +kernel) .nil))
  exact ⟨_, h, by decide +kernel,
    (identifierLists.closures_least.2 _ _ h).closure_least _ (by decide +kernel)⟩

end Coscript
