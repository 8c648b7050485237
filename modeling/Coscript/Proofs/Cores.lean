import Coscript.Proofs.Expansion
import Coscript.Proofs.Hierarchy
import Mathlib.Data.Fintype.Card

/-!
# Merged states are states without lookaheads

The items with lookaheads that are valid for some symbols are, once the lookaheads are dropped, the
items without lookaheads that are valid for them. One half of this needs that no lookahead set is
empty: an item would imply nothing if nothing could stand behind the name after its dot. No such set
is empty if no FIRST set is.

Therefore the cores of the canonical states are the states of the automaton without lookaheads. The
states are discovered in another order and get other numbers, but what correspond are states that
the same symbols lead to, so that the first states correspond and so do the targets of each symbol.

* `Discipline.valid_core_iff`: valid items without their lookaheads;
* `Collection.Corresponds`: cores that stand for states, with items and transitions;
* `Strategy.cores_correspond`: the cores of the canonical states are the states without lookaheads,
  and merged tables have as many states as those without lookaheads.
-/

namespace Coscript

open Discipline

variable {g : Grammar} {production : Nat}

/-! ### Items without their lookaheads -/

/-- Without empty FIRST sets, something may stand behind the name after a dot. -/
lemma exists_lookaheadBehind (hfirst : ∀ a ∈ g.names, ∃ n, n ∈ g.firstFollow.first.of a)
    (i : Item Nat) : ∃ l, l ∈ lookaheadsBehind g g.firstFollow i := by
  have hrest : (g.leading g.firstFollow.first (i.rest g)).ending = .vanishes ∨
      ∃ n, n ∈ (g.leading g.firstFollow.first (i.rest g)).terminals := by
    unfold Item.rest
    cases hp : g.production? i.production with
    | none => exact .inl rfl
    | some p => exact Grammar.leading_of_first hfirst hp fun _ => List.mem_of_mem_drop
  unfold lookaheadsBehind
  dsimp only
  split
  · exact ⟨i.lookahead, IdSet.mem_insert.mpr (.inl rfl)⟩
  · next hstops => exact hrest.resolve_left hstops

/-- An item that is valid without lookaheads is so with some lookahead. -/
lemma Discipline.exists_valid_of_core
    (hfirst : ∀ a ∈ g.names, ∃ n, n ∈ g.firstFollow.first.of a) {σ : List Symbol} {j : Item Unit}
    (h : plain.Valid g g.firstFollow production σ j) :
    ∃ i, canonical.Valid g g.firstFollow production σ i ∧ i.core = j := by
  induction h with
  | start => exact ⟨_, .start, rfl⟩
  | @implied σ j k _ hk ih =>
    obtain ⟨i, hi, rfl⟩ := ih
    obtain ⟨a, ha, hp, hdot, -⟩ := mem_implied_iff.mp hk
    obtain ⟨l, hl⟩ := exists_lookaheadBehind hfirst i
    refine ⟨⟨k.production, 0, l⟩, hi.implied (mem_implied_iff.mpr ⟨a, ha, hp, rfl, hl⟩), ?_⟩
    rw [Item.core, ← hdot]
  | advance _ hx ih =>
    obtain ⟨i, hi, rfl⟩ := ih
    exact ⟨i.advance, hi.advance hx, rfl⟩

/-- **The valid items without their lookaheads** are the valid items of the automaton without
lookaheads. -/
theorem Discipline.valid_core_iff (hfirst : ∀ a ∈ g.names, ∃ n, n ∈ g.firstFollow.first.of a)
    {σ : List Symbol} {j : Item Unit} :
    (∃ i, canonical.Valid g g.firstFollow production σ i ∧ i.core = j) ↔
      plain.Valid g g.firstFollow production σ j := by
  constructor
  · rintro ⟨i, hi, rfl⟩
    exact valid_core hi
  · exact exists_valid_of_core hfirst

/-! ### States that symbols lead to -/

namespace Collection

variable {L : Type} [DecidableEq L] [Hashable L]
variable {d : Discipline L} {s : FirstFollow} {c : Collection L}

/-- A state that holds the valid items of some symbols. -/
structure Holds (d : Discipline L) (g : Grammar) (s : FirstFollow) (production : Nat)
    (c : Collection L) (σ : List Symbol) (state : Nat) : Prop where
  lt : state < c.size
  items : ∀ i, i ∈ c.itemsOf state ↔ d.Valid g s production σ i

/-- A collection of distinct states, each of which holds the valid items of some symbols. -/
structure Distinct (d : Discipline L) (g : Grammar) (s : FirstFollow) (production : Nat)
    (c : Collection L) : Prop where
  exact : c.Exact d g s production
  holds : ∀ state < c.size, ∃ σ, c.Holds d g s production σ state
  inhabited : ∀ state < c.size, ∃ i, i ∈ c.itemsOf state
  eq : ∀ m < c.size, ∀ n < c.size, (∀ i, i ∈ c.itemsOf m ↔ i ∈ c.itemsOf n) → m = n

lemma build_distinct_states (b : LookaheadBound d g s) (hp : production < g.productions.size) :
    (build d g s production).Distinct d g s production where
  exact := (build_exact b hp).1
  holds state hlt := by
    obtain ⟨σ, hσ⟩ := build_valid b production state hlt
    exact ⟨σ, hlt, hσ⟩
  inhabited _ hlt := build_inhabited b production hlt
  eq _ hm _ hn h := build_distinct b production hm hn h

lemma Exact.holds_zero (h : c.Exact d g s production) : c.Holds d g s production [] 0 where
  lt := h.pos
  items _ := (h.start _).trans valid_nil_iff.symm

/-- A symbol leads to the state that holds what is valid behind it. -/
lemma Exact.holds_target (h : c.Exact d g s production) {σ : List Symbol} {m n : Nat} {x : Symbol}
    (hm : c.Holds d g s production σ m) (hn : (c.row m).get? x = some n) :
    c.Holds d g s production (x :: σ) n where
  lt := (h.goto m x n hn).1
  items j := by
    have hitems : (· ∈ c.itemsOf m) = d.Valid g s production σ :=
      funext fun i => propext (hm.items i)
    rw [(h.goto m x n hn).2, hitems, valid_cons_iff]

/-- Symbols with a valid item lead to a state that holds their items. -/
lemma Exact.exists_holds (h : c.Exact d g s production) {σ : List Symbol} {i : Item L}
    (hi : d.Valid g s production σ i) : ∃ state, c.Holds d g s production σ state := by
  obtain ⟨m, hm⟩ := h.exists_reach hi
  exact ⟨m, h.reach?_lt hm, fun _ => h.mem_itemsOf_iff hm⟩

/-! ### Cores and states -/

/-- A core of the states of a collection. -/
def Core (c : Collection L) : Type :=
  { core : List (Item Unit) // ∃ state : Fin c.size, c.core state = core }

/-- The core of a state. -/
def coreAt (c : Collection L) (state : Fin c.size) : c.Core := ⟨c.core state, state, rfl⟩

/-- Cores that stand for states with the same items, so that first states and targets correspond. -/
structure Corresponds (c : Collection Nat) (c₀ : Collection Unit) (f : c.Core → Fin c₀.size) :
    Prop where
  items : ∀ core j, j ∈ c₀.itemsOf (f core) ↔ j ∈ core.val
  start : ∃ state : Fin c.size, state.val = 0 ∧ (f (c.coreAt state)).val = 0
  target : ∀ (state : Fin c.size) (x : Symbol) (n : Nat), (c.row state).get? x = some n →
    ∃ next : Fin c.size, next.val = n ∧
      (c₀.row (f (c.coreAt state))).get? x = some (f (c.coreAt next)).val
  stuck : ∀ (state : Fin c.size) (x : Symbol), (c.row state).get? x = none →
    (c₀.row (f (c.coreAt state))).get? x = none

/-- Without lookaheads, the core of a state has its items. -/
lemma mem_core_plain_iff {c₀ : Collection Unit} {state : Nat} {j : Item Unit} :
    j ∈ c₀.core state ↔ j ∈ c₀.itemsOf state := by
  rw [mem_core_iff]
  constructor
  · rintro ⟨i, hi, rfl⟩
    exact hi
  · exact fun hj => ⟨j, hj, rfl⟩

variable {c : Collection Nat} {c₀ : Collection Unit}

/-- States without lookaheads are told apart by their cores. -/
lemma Distinct.eq_of_core (h₀ : c₀.Distinct .plain g g.firstFollow production) {m n : Fin c₀.size}
    (h : c₀.core m = c₀.core n) : m = n := by
  refine Fin.ext (h₀.eq m m.isLt n n.isLt fun i => ?_)
  rw [← mem_core_plain_iff, h, mem_core_plain_iff]

/-- States that the same symbols lead to have the same core. -/
lemma Holds.core_eq (hfirst : ∀ a ∈ g.names, ∃ n, n ∈ g.firstFollow.first.of a) {σ : List Symbol}
    {m n : Nat} (hm : c.Holds .canonical g g.firstFollow production σ m)
    (hn : c₀.Holds .plain g g.firstFollow production σ n) : c.core m = c₀.core n := by
  refine core_eq_of_cores fun j => ?_
  rw [← mem_core_iff (c := c₀), mem_core_plain_iff, hn.items, ← valid_core_iff hfirst]
  simp only [Cores, hm.items]

/-- The core of a state without lookaheads is that of a canonical state. -/
lemma exists_state_of_plain (hfirst : ∀ a ∈ g.names, ∃ n, n ∈ g.firstFollow.first.of a)
    (h : c.Distinct .canonical g g.firstFollow production)
    (h₀ : c₀.Distinct .plain g g.firstFollow production) (n : Fin c₀.size) :
    ∃ state : Fin c.size, c.core state = c₀.core n := by
  obtain ⟨σ, hσ⟩ := h₀.holds n n.isLt
  obtain ⟨j, hj⟩ := h₀.inhabited n n.isLt
  obtain ⟨i, hi, -⟩ := exists_valid_of_core hfirst ((hσ.items j).mp hj)
  obtain ⟨m, hm⟩ := h.exact.exists_holds hi
  exact ⟨⟨m, hm.lt⟩, hm.core_eq hfirst hσ⟩

/-- A state without lookaheads with the core of a canonical state is one that the same symbols lead
to. -/
lemma exists_holds_of_core_eq (hfirst : ∀ a ∈ g.names, ∃ n, n ∈ g.firstFollow.first.of a)
    (h : c.Distinct .canonical g g.firstFollow production)
    (h₀ : c₀.Distinct .plain g g.firstFollow production) (state : Fin c.size) :
    ∃ σ, c.Holds .canonical g g.firstFollow production σ state ∧
      ∃ n : Fin c₀.size, c₀.Holds .plain g g.firstFollow production σ n ∧
        c₀.core n = c.core state := by
  obtain ⟨σ, hσ⟩ := h.holds state state.isLt
  obtain ⟨i, hi⟩ := h.inhabited state state.isLt
  obtain ⟨n, hn⟩ := h₀.exact.exists_holds (valid_core ((hσ.items i).mp hi))
  exact ⟨σ, hσ, ⟨n, hn.lt⟩, hn, (hσ.core_eq hfirst hn).symm⟩

/-- A correspondence of cores that keeps items keeps the automaton. -/
lemma corresponds_of_core_eq (hfirst : ∀ a ∈ g.names, ∃ n, n ∈ g.firstFollow.first.of a)
    (h : c.Distinct .canonical g g.firstFollow production)
    (h₀ : c₀.Distinct .plain g g.firstFollow production) {f : c.Core → Fin c₀.size}
    (hf : ∀ core, c₀.core (f core) = core.val) : c.Corresponds c₀ f := by
  -- The state for a core is that of the symbols which lead to any state with this core.
  have hstate : ∀ {σ : List Symbol} {m : Fin c.size} {n : Nat},
      c.Holds .canonical g g.firstFollow production σ m →
      c₀.Holds .plain g g.firstFollow production σ n → (f (c.coreAt m)).val = n := by
    intro σ m n hm hn
    have heq : f (c.coreAt m) = ⟨n, hn.lt⟩ :=
      h₀.eq_of_core ((hf _).trans (hm.core_eq hfirst hn))
    rw [heq]
  refine ⟨fun core j => ?_, ⟨⟨0, h.exact.pos⟩, rfl, ?_⟩, fun m x k hk => ?_, fun m x hnone => ?_⟩
  · rw [← mem_core_plain_iff, hf]
  · exact hstate h.exact.holds_zero h₀.exact.holds_zero
  · obtain ⟨σ, hσ, n, hn, -⟩ := exists_holds_of_core_eq hfirst h h₀ m
    obtain ⟨i, hi, hx⟩ := (h.exact.keys m x).mp ⟨k, hk⟩
    have hcore := (hn.items i.core).mpr (valid_core ((hσ.items i).mp hi))
    obtain ⟨k₀, hk₀⟩ := (h₀.exact.keys n x).mpr ⟨i.core, hcore, hx⟩
    have hnext := h.exact.holds_target hσ hk
    refine ⟨⟨k, hnext.lt⟩, rfl, ?_⟩
    rw [hstate hσ hn, hk₀, hstate (m := ⟨k, hnext.lt⟩) hnext (h₀.exact.holds_target hn hk₀)]
  · obtain ⟨σ, hσ, n, hn, -⟩ := exists_holds_of_core_eq hfirst h h₀ m
    rw [hstate hσ hn]
    by_contra hsome
    obtain ⟨k₀, hk₀⟩ := Option.ne_none_iff_exists'.mp hsome
    obtain ⟨j, hj, hx⟩ := (h₀.exact.keys n x).mp ⟨k₀, hk₀⟩
    obtain ⟨i, hi, rfl⟩ := exists_valid_of_core hfirst ((hn.items j).mp hj)
    obtain ⟨k, hk⟩ := (h.exact.keys m x).mpr ⟨i, (hσ.items i).mpr hi, hx⟩
    cases hnone.symm.trans hk

/-- **The cores of the canonical states are the states without lookaheads.** -/
theorem exists_core_equiv (hfirst : ∀ a ∈ g.names, ∃ n, n ∈ g.firstFollow.first.of a)
    (h : c.Distinct .canonical g g.firstFollow production)
    (h₀ : c₀.Distinct .plain g g.firstFollow production) :
    ∃ φ : c.Core ≃ Fin c₀.size, c.Corresponds c₀ φ := by
  have hcore : ∀ n : Fin c₀.size, ∃ core : c.Core, core.val = c₀.core n := fun n =>
    ⟨⟨c₀.core n, exists_state_of_plain hfirst h h₀ n⟩, rfl⟩
  choose f hf using hcore
  have hbijective : Function.Bijective f := by
    constructor
    · intro m n hmn
      refine h₀.eq_of_core ?_
      rw [← hf m, hmn, hf n]
    · rintro ⟨core, state, rfl⟩
      obtain ⟨-, -, n, -, hn⟩ := exists_holds_of_core_eq hfirst h h₀ state
      exact ⟨n, Subtype.ext ((hf n).trans hn)⟩
  let φ := (Equiv.ofBijective f hbijective).symm
  refine ⟨φ, corresponds_of_core_eq hfirst h h₀ fun core => ?_⟩
  calc c₀.core (φ core) = (f (φ core)).val := (hf _).symm
    _ = core.val := congrArg Subtype.val (Equiv.ofBijective_apply_symm_apply f hbijective core)

/-- There are as many groups of canonical states as states without lookaheads. -/
lemma size_ofCollection (hfirst : ∀ a ∈ g.names, ∃ n, n ∈ g.firstFollow.first.of a)
    (h : c.Distinct .canonical g g.firstFollow production)
    (h₀ : c₀.Distinct .plain g g.firstFollow production) :
    (Merging.ofCollection c).size = c₀.size := by
  -- The group of a state without lookaheads has its core.
  have hgroup : ∀ n : Fin c₀.size, ∃ k : Fin (Merging.ofCollection c).size,
      (Merging.ofCollection c).cores.get? k = some (c₀.core n) := by
    intro n
    obtain ⟨state, hcore⟩ := exists_state_of_plain hfirst h h₀ n
    obtain ⟨-, hgroups⟩ := Merging.firstStates_spec c c.size
    obtain ⟨k, -, hk⟩ := hgroups state state.isLt
    rw [hcore] at hk
    exact ⟨⟨k, Numbering.lt_size_of_get? hk⟩, hk⟩
  choose f hf using hgroup
  have hbijective : Function.Bijective f := by
    constructor
    · intro m n hmn
      have hm := hf m
      rw [hmn, hf n] at hm
      exact (h₀.eq_of_core (Option.some.inj hm)).symm
    · intro k
      obtain ⟨core, hk⟩ := Numbering.exists_get? k.isLt
      obtain ⟨state, hlt, rfl⟩ := Merging.exists_state_of_get? hk
      obtain ⟨-, -, n, -, hn⟩ := exists_holds_of_core_eq hfirst h h₀ ⟨state, hlt⟩
      refine ⟨n, Fin.ext (Numbering.get?_inj (hf n) ?_)⟩
      rw [hk, hn]
  simpa using (Fintype.card_of_bijective hbijective).symm

end Collection

/-! ### Tables -/

namespace Strategy

/-- **Merged states are the states without lookaheads.** In a grammar without empty FIRST sets, the
cores of the canonical states correspond to the states without lookaheads, one to one, with their
items and all transitions. So merged tables have as many states as those without lookaheads. -/
theorem cores_correspond (hp : g.startProduction = .ok production)
    (hfirst : ∀ a ∈ g.names, ∃ n, n ∈ g.firstFollow.first.of a) :
    (∃ φ : (Collection.build .canonical g g.firstFollow production).Core ≃
        Fin (Collection.build .plain g g.firstFollow production).size,
      (Collection.build .canonical g g.firstFollow production).Corresponds
        (Collection.build .plain g g.firstFollow production) φ) ∧
    ∀ t t₀, merged.build g = .ok t → simple.build g = .ok t₀ → t.size = t₀.size := by
  obtain ⟨-, hlt, -⟩ := canonical_collection hp
  have h := Collection.build_distinct_states (LookaheadBound.canonical g) hlt
  have h₀ := Collection.build_distinct_states (LookaheadBound.plain g g.firstFollow) hlt
  refine ⟨Collection.exists_core_equiv hfirst h h₀, fun t t₀ ht ht₀ => ?_⟩
  rw [build_merged] at ht
  rw [build_simple] at ht₀
  obtain ⟨_, hp₁, ht⟩ := bind_eq_ok_iff.mp ht
  obtain ⟨_, hp₀, ht₀⟩ := bind_eq_ok_iff.mp ht₀
  cases hp.symm.trans hp₁
  cases hp.symm.trans hp₀
  obtain ⟨t₁, ht₁, ht⟩ := bind_eq_ok_iff.mp ht
  obtain ⟨b₁, rfl, -, hb₁⟩ := Collection.regular_of_table ht₁
  obtain ⟨b₀, rfl, -, hb₀⟩ := Collection.regular_of_table ht₀
  calc t.size = (Merging.ofCollection _).size := Merging.size_of_table hb₁ ht
    _ = (Collection.build .plain g g.firstFollow production).size :=
      Collection.size_ofCollection hfirst h h₀
    _ = (b₀.finish 0).size := hb₀.size.symm

/-- Two words that end with `d` and have only `c` before. -/
def twoWordsRules : Array Production :=
  let word : Symbol := .nonTerminal "Word"
  let letter (c : String) : Symbol := .terminal (.literal .identifier c)
  #[⟨"Z", [.nonTerminal "S"]⟩, ⟨"S", [word, word]⟩, ⟨"Word", [letter "c", word]⟩,
    ⟨"Word", [letter "d"]⟩]

/-- A grammar in which the lookaheads tell the first word from the second one. -/
def twoWords : Grammar :=
  ⟨"Z", twoWordsRules, Grammar.indexOf twoWordsRules, Grammar.terminalsOf twoWordsRules, rfl, rfl,
    by decide +kernel, by decide +kernel⟩

/-- The two words have ten canonical states with seven cores. -/
theorem cores_correspond_twoWords : ∃ t t₀, merged.build twoWords = .ok t ∧
    simple.build twoWords = .ok t₀ ∧ t.size = t₀.size ∧ t₀.size = 7 ∧
    (Collection.build .canonical twoWords twoWords.firstFollow 0).size = 10 ∧
    ∃ φ : (Collection.build .canonical twoWords twoWords.firstFollow 0).Core ≃
        Fin (Collection.build .plain twoWords twoWords.firstFollow 0).size,
      (Collection.build .canonical twoWords twoWords.firstFollow 0).Corresponds
        (Collection.build .plain twoWords twoWords.firstFollow 0) φ := by
  have hp : twoWords.startProduction = .ok 0 := by decide +kernel
  obtain ⟨hφ, hsize⟩ := cores_correspond hp (Grammar.exists_first_of_all (by decide +kernel))
  have hseven : (simple.build twoWords).toOption.map ParsingTable.size = some 7 := by
    decide +kernel
  have hten : (Collection.build .canonical twoWords twoWords.firstFollow 0).size = 10 := by
    decide +kernel
  cases h₀ : simple.build twoWords with
  | error e =>
    rw [h₀] at hseven
    cases hseven
  | ok t₀ =>
    obtain ⟨t, h⟩ := exists_table_of_simple h₀
    rw [h₀] at hseven
    exact ⟨t, t₀, h, rfl, hsize t t₀ h h₀, Option.some.inj hseven, hten, hφ⟩

end Strategy

end Coscript
