import Coscript.Proofs.ClosureCalls
import Coscript.Proofs.Cores

/-!
# The collection is the reachable automaton

A collection of states grows while it is gone through: the row of a state may find new states, whose
rows are added later. The exploration ends all the same, with one row for each state, and what it
has found is the automaton whatever the order was: different closed sets of items, begun with the
closure of the start item, each of them reached by transitions from there.

* `Exploration.run_eq_iterate`, `Exploration.iterate_spec`: the exploration row by row;
* `Collection.reachable_of_reach`: states that symbols lead to are reached by transitions;
* `Collection.Automaton`: the reachable automaton, with closures as least sets of items;
* `Grammar.collections_reachable`: what is built with and without lookaheads.
-/

namespace Coscript

open Relation

variable {L : Type} [DecidableEq L] [Hashable L]
variable {d : Discipline L} {g : Grammar} {s : FirstFollow} {production : Nat}

/-! ### Row by row -/

namespace Exploration

/-- The exploration of an automaton after some rows have been added. -/
def withRows (d : Discipline L) (g : Grammar) (s : FirstFollow) (production n : Nat) :
    Exploration L :=
  (step d g s)^[n] (start d g s production)

lemma withRows_succ (d : Discipline L) (g : Grammar) (s : FirstFollow) (production n : Nat) :
    withRows d g s production (n + 1) = (withRows d g s production n).step d g s :=
  Function.iterate_succ_apply' ..

/-- A run adds rows as long as a state has none. -/
lemma run_eq_iterate (fuel : Nat) (e : Exploration L) : ∃ n,
    run d g s fuel e = (step d g s)^[n] e ∧
      ∀ k < n, ((step d g s)^[k] e).rows.size < ((step d g s)^[k] e).states.size := by
  induction fuel generalizing e with
  | zero => exact ⟨0, rfl, fun k hk => absurd hk (Nat.not_lt_zero k)⟩
  | succ fuel ih =>
    rw [run]
    split
    · next hlt =>
      obtain ⟨n, hn, hbefore⟩ := ih (e.step d g s)
      refine ⟨n + 1, hn, fun k hk => ?_⟩
      cases k with
      | zero => exact hlt
      | succ k => exact hbefore k (Nat.lt_of_succ_lt_succ hk)
    · exact ⟨0, rfl, fun k hk => absurd hk (Nat.not_lt_zero k)⟩

/-- Every row is that of a state. -/
lemma Invariant.rows_le {e : Exploration L} (h : e.Invariant d g s production) :
    e.rows.size ≤ e.states.size := by
  by_contra hlt
  obtain ⟨state, -, hstate, -⟩ := h.rows e.states.size _ (Array.getElem?_eq_getElem (by omega))
  exact absurd (Numbering.lt_size_of_get? hstate) (Nat.lt_irrefl _)

/-- As long as states have no rows, each step adds one. -/
lemma withRows_spec (b : LookaheadBound d g s) {n : Nat}
    (hbefore : ∀ k < n, (withRows d g s production k).rows.size <
      (withRows d g s production k).states.size) :
    (withRows d g s production n).Invariant d g s production ∧
      (withRows d g s production n).rows.size = n := by
  induction n with
  | zero => exact ⟨start_invariant b production, rfl⟩
  | succ n ih =>
    obtain ⟨h, hsize⟩ := ih fun k hk => hbefore k (Nat.lt_succ_of_lt hk)
    obtain ⟨h', hsize', -⟩ := step_spec b h (hbefore n (Nat.lt_succ_self n))
    rw [withRows_succ]
    exact ⟨h', by rw [hsize', hsize]⟩

end Exploration

namespace Collection

/-- The exploration of an automaton ends with a collection: it adds the row of one state after
another, as long as there is a state without one, and the search for each closure on the way ends. -/
structure Ends (d : Discipline L) (g : Grammar) (s : FirstFollow) (production : Nat)
    (c : Collection L) : Prop where
  result : let e := Exploration.withRows d g s production c.size
    c = ⟨e.cache.items, e.states, e.rows, e.cache.memoized⟩
  rows : c.rows.size = c.size
  before : ∀ k < c.size, (Exploration.withRows d g s production k).rows.size = k ∧
    k < (Exploration.withRows d g s production k).states.size
  searches : ∀ (items : Numbering (Item L)), ∀ n < items.size,
    (Search.run d g s (ClosureCache.closureBound d g) (.seeded items n)).pending = []

/-- **The exploration ends** with a row for each state. -/
theorem build_ends (b : LookaheadBound d g s) (hp : production < g.productions.size) :
    (build d g s production).Ends d g s production := by
  obtain ⟨n, hn, hbefore⟩ := Exploration.run_eq_iterate (d := d) (g := g) (s := s)
    (Nat.pow 2 (d.itemBound g)) (.start d g s production)
  change _ = Exploration.withRows d g s production n at hn
  obtain ⟨h, hsize⟩ := Exploration.withRows_spec b hbefore
  obtain ⟨-, hend⟩ := Exploration.run_spec b (Nat.pow 2 (d.itemBound g))
    (Exploration.start_invariant (d := d) (s := s) b production)
  have hbuild : build d g s production =
      ⟨(Exploration.withRows d g s production n).cache.items,
        (Exploration.withRows d g s production n).states,
        (Exploration.withRows d g s production n).rows,
        (Exploration.withRows d g s production n).cache.memoized⟩ := by
    rw [build, hn]
  -- The fuel is as large as the number of states can be, so that it does not run out before all of
  -- them have their rows.
  have hstates : (Exploration.withRows d g s production n).states.size = n := by
    have hzero : (Exploration.start d g s production).rows.size = 0 := rfl
    have hbound := Exploration.size_states_le b hp h
    have hle := h.rows_le
    rw [hn, hzero] at hend
    omega
  have hn : (build d g s production).size = n := by
    rw [hbuild]
    exact hstates
  refine ⟨?_, ?_, fun k hk => ?_, fun items m hm => ?_⟩
  · rw [hn]
    exact hbuild
  · rw [hn, hbuild]
    exact hsize
  · rw [hn] at hk
    obtain ⟨-, hrows⟩ := Exploration.withRows_spec b fun j hj => hbefore j (hj.trans hk)
    refine ⟨hrows, ?_⟩
    have hlt : (Exploration.withRows d g s production k).rows.size < _ := hbefore k hk
    rwa [hrows] at hlt
  · obtain ⟨i, hi⟩ := Numbering.exists_get? hm
    exact (Search.run_seeded b hi).1

/-! ### The automaton -/

/-- One state has a transition to another one. -/
def Leads (c : Collection L) (m n : Nat) : Prop := ∃ x, (c.row m).get? x = some n

/-- States that symbols lead to are reached by transitions. -/
lemma reachable_of_reach {c : Collection L} {σ : List Symbol} {m : Nat}
    (h : c.reach? σ = some m) : ReflTransGen c.Leads 0 m := by
  induction σ generalizing m with
  | nil =>
    cases h
    exact .refl
  | cons x σ ih =>
    obtain ⟨k, hk, hrow⟩ := Option.bind_eq_some_iff.mp h
    exact (ih hk).tail ⟨x, hrow⟩

/-- The reachable automaton of a grammar: different states, which are closures of items, with
transitions for the symbols after the dots, each state reached from state `0`. -/
structure Automaton (d : Discipline L) (g : Grammar) (s : FirstFollow) (production : Nat)
    (c : Collection L) : Prop where
  pos : 0 < c.size
  /-- The states are sets of numbered items. -/
  numbered : ∀ m S, c.states.get? m = some S → ∀ n ∈ S, n < c.items.size
  distinct : ∀ m < c.size, ∀ n < c.size,
    (∀ i, i ∈ c.itemsOf m ↔ i ∈ c.itemsOf n) → m = n
  start : IsLeast (d.ClosedAbove g s {d.startItem production}) {j | j ∈ c.itemsOf 0}
  keys : ∀ m x, (∃ n, (c.row m).get? x = some n) ↔ ∃ i ∈ c.itemsOf m, i.next? g = some x
  target : ∀ m x n, (c.row m).get? x = some n → n < c.size ∧
    IsLeast (d.ClosedAbove g s {j | ∃ i ∈ c.itemsOf m, i.next? g = some x ∧ j = i.advance})
      {j | j ∈ c.itemsOf n}
  reachable : ∀ m < c.size, ReflTransGen c.Leads 0 m

/-- Each state of the collection that is built is reached by transitions: the symbols whose valid
items it holds lead to a state with these items, and there is only one. -/
lemma Distinct.reachable {c : Collection L} (h : c.Distinct d g s production) {m : Nat}
    (hm : m < c.size) : ReflTransGen c.Leads 0 m := by
  obtain ⟨σ, hσ⟩ := h.holds m hm
  obtain ⟨i, hi⟩ := h.inhabited m hm
  obtain ⟨n, hn⟩ := h.exact.exists_reach ((hσ.items i).mp hi)
  have hitems : ∀ i, i ∈ c.itemsOf n ↔ i ∈ c.itemsOf m := fun i =>
    (h.exact.mem_itemsOf_iff hn).trans (hσ.items i).symm
  rw [← h.eq n (h.exact.reach?_lt hn) m hm hitems]
  exact reachable_of_reach hn

/-- **The collection that is built is the reachable automaton.** -/
theorem build_automaton (b : LookaheadBound d g s) (hp : production < g.productions.size) :
    (build d g s production).Automaton d g s production := by
  have h := build_distinct_states b hp
  refine ⟨h.exact.pos, fun m S hS n hn => ?_, h.eq, ?_, h.exact.keys, fun m x n hx => ?_,
    fun m hm => h.reachable hm⟩
  · obtain ⟨σ, -, hσ⟩ := build_states b production hS
    obtain ⟨i, hi, -⟩ := hσ.sound n hn
    exact Numbering.lt_size_of_get? hi
  · have hstart : {j | j ∈ (build d g s production).itemsOf 0} =
        {j | ∃ i ∈ ({d.startItem production} : Set (Item L)), d.Reaches g s i j} := by
      ext j
      simpa using h.exact.start j
    rw [hstart]
    exact d.isLeast_reached g s _
  · obtain ⟨hlt, hgoto⟩ := h.exact.goto m x n hx
    have htarget : {j | j ∈ (build d g s production).itemsOf n} =
        {j | ∃ i ∈ {j | ∃ i ∈ (build d g s production).itemsOf m,
          i.next? g = some x ∧ j = i.advance}, d.Reaches g s i j} := by
      ext j
      rw [Set.mem_ofPred_eq, hgoto]
      constructor
      · rintro ⟨i, hi, hx, hr⟩
        exact ⟨_, ⟨i, hi, hx, rfl⟩, hr⟩
      · rintro ⟨_, ⟨i, hi, hx, rfl⟩, hr⟩
        exact ⟨i, hi, hx, hr⟩
    rw [htarget]
    exact ⟨hlt, d.isLeast_reached g s _⟩

end Collection

namespace Grammar

/-- **The collections that are built are the reachable automata**, with and without lookaheads, and
their exploration ends. -/
theorem collections_reachable (hp : g.startProduction = .ok production) :
    ((Collection.build .plain g g.firstFollow production).Ends .plain g g.firstFollow production ∧
      (Collection.build .plain g g.firstFollow production).Automaton .plain g g.firstFollow
        production) ∧
    ((Collection.build .canonical g g.firstFollow production).Ends .canonical g g.firstFollow
        production ∧
      (Collection.build .canonical g g.firstFollow production).Automaton .canonical g g.firstFollow
        production) := by
  have hlt := lt_of_startProduction hp
  exact ⟨⟨Collection.build_ends (LookaheadBound.plain g g.firstFollow) hlt,
      Collection.build_automaton (LookaheadBound.plain g g.firstFollow) hlt⟩,
    Collection.build_ends (LookaheadBound.canonical g) hlt,
    Collection.build_automaton (LookaheadBound.canonical g) hlt⟩

/-- The automata of the two words have seven states and ten states. -/
theorem collections_reachable_twoWords : Strategy.twoWords.startProduction = .ok 0 ∧
    (Collection.build .plain Strategy.twoWords Strategy.twoWords.firstFollow 0).size = 7 ∧
    (Collection.build .plain Strategy.twoWords Strategy.twoWords.firstFollow 0).Automaton .plain
      Strategy.twoWords Strategy.twoWords.firstFollow 0 ∧
    (Collection.build .canonical Strategy.twoWords Strategy.twoWords.firstFollow 0).size = 10 ∧
    (Collection.build .canonical Strategy.twoWords Strategy.twoWords.firstFollow 0).Automaton
      .canonical Strategy.twoWords Strategy.twoWords.firstFollow 0 := by
  have hp : Strategy.twoWords.startProduction = .ok 0 := by decide +kernel
  obtain ⟨⟨-, hplain⟩, -, hcanonical⟩ := collections_reachable hp
  exact ⟨hp, by decide +kernel, hplain, by decide +kernel, hcanonical⟩

end Grammar

end Coscript
