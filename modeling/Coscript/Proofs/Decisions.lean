import Coscript.Proofs.Cores
import Coscript.Proofs.Tracking

/-!
# Decisions of a parser

What a parser with a built table does depends on the symbols that have been pushed and on the next
terminal. It can be told without the table: from the items that are valid for the pushed symbols. A
symbol may be pushed if it stands after the dot of a valid item. A production may be reduced before
the terminals that a complete valid item is reduced on; in a merged table these are the lookaheads
of the item for all symbols that lead to a state of the same group.

* `Decisions`: what may be pushed and reduced, by the pushed symbols;
* `Discipline.decisions`, `Strategy.decisions`: the decisions of the strategies;
* `ParsingTable.Implements`: a table whose entries are the decisions;
* `Strategy.exists_table_iff`: there is a table if the decisions are unique;
* `Strategy.implements`: built tables implement the decisions of their strategy.
-/

namespace Coscript

open Discipline

/-- What a parser may do when some symbols have been pushed, the last one first. -/
structure Decisions where
  /-- A symbol may be pushed. -/
  push : List Symbol → Symbol → Prop
  /-- The production at a place may be reduced before a terminal. -/
  reduce : List Symbol → Terminal → Nat → Prop

/-- At most one thing may be done before each terminal. -/
structure Decisions.Unique (D : Decisions) : Prop where
  shift : ∀ {σ y k}, D.push σ (.terminal y) → ¬ D.reduce σ y k
  reduce : ∀ {σ y k l}, D.reduce σ y k → D.reduce σ y l → k = l

/-- The decisions by the valid items of a discipline. -/
def Discipline.decisions {L : Type} (d : Discipline L) (g : Grammar) (s : FirstFollow)
    (production : Nat) : Decisions where
  push σ x := ∃ i, d.Valid g s production σ i ∧ i.next? g = some x
  reduce σ y k := ∃ i, d.Valid g s production σ i ∧ i.next? g = none ∧ i.production = k ∧
    ∃ n ∈ d.reduceOn g s i, g.terminal? n = some y

namespace Grammar

variable {g : Grammar} {production : Nat}

/-- Symbols whose valid items differ in their lookaheads only. -/
def SameCores (g : Grammar) (production : Nat) (σ τ : List Symbol) : Prop :=
  ∀ j, (∃ i, g.Valid production σ i ∧ i.core = j) ↔ ∃ i, g.Valid production τ i ∧ i.core = j

lemma SameCores.refl (g : Grammar) (production : Nat) (σ : List Symbol) :
    g.SameCores production σ σ := fun _ => .rfl

lemma SameCores.symm {σ τ : List Symbol} (h : g.SameCores production σ τ) :
    g.SameCores production τ σ := fun j => (h j).symm

lemma SameCores.trans {ρ σ τ : List Symbol} (h : g.SameCores production ρ σ)
    (h' : g.SameCores production σ τ) : g.SameCores production ρ τ := fun j => (h j).trans (h' j)

/-- A terminal after a dot is so for all symbols with the same cores. -/
lemma SameCores.exists_next {σ τ : List Symbol} (h : g.SameCores production σ τ) {i : Item Nat}
    {x : Symbol} (hi : g.Valid production σ i) (hx : i.next? g = some x) :
    ∃ j, g.Valid production τ j ∧ j.next? g = some x := by
  obtain ⟨j, hj, hcore⟩ := (h i.core).mp ⟨i, hi, rfl⟩
  refine ⟨j, hj, ?_⟩
  rw [← Item.next?_core, hcore]
  exact hx

/-- The decisions by merged states: the lookaheads of all states of a group count. -/
def mergedDecisions (g : Grammar) (production : Nat) : Decisions where
  push := (canonical.decisions g g.firstFollow production).push
  reduce σ y k := ∃ τ, g.SameCores production σ τ ∧
    (canonical.decisions g g.firstFollow production).reduce τ y k

end Grammar

/-- The decisions of the tables of a strategy. -/
def Strategy.decisions (strategy : Strategy) (g : Grammar) (production : Nat) : Decisions :=
  match strategy with
  | simple => plain.decisions g g.firstFollow production
  | canonical => Discipline.canonical.decisions g g.firstFollow production
  | merged => g.mergedDecisions production

/-! ### Unique decisions -/

namespace Collection

variable {L : Type} [DecidableEq L] [Hashable L]
variable {d : Discipline L} {g : Grammar} {s : FirstFollow} {production : Nat} {c : Collection L}

lemma Exact.holds_of_reach (h : c.Exact d g s production) {σ : List Symbol} {m : Nat}
    (hm : c.reach? σ = some m) : c.Holds d g s production σ m where
  lt := h.reach?_lt hm
  items _ := h.mem_itemsOf_iff hm

/-- **An automaton has no conflicts if decisions by its items are unique.** -/
theorem consistent_iff (h : c.Exact d g s production)
    (hholds : ∀ state < c.size, ∃ σ, c.Holds d g s production σ state) :
    c.Consistent d g s ↔ (d.decisions g s production).Unique := by
  constructor
  · intro hc
    constructor
    · rintro σ y k ⟨i, hi, hx⟩ ⟨j, hj, hcomplete, -, n, hn, hterm⟩
      obtain ⟨m, hm⟩ := h.exists_holds hi
      exact hc.shift ((hm.items i).mpr hi) ((hm.items j).mpr hj) hx hcomplete hn hterm
    · rintro σ y k l ⟨i, hi, hi', rfl, n, hn, hterm⟩ ⟨j, hj, hj', rfl, n', hn', hterm'⟩
      obtain ⟨m, hm⟩ := h.exists_holds hi
      obtain rfl := Grammar.terminal?_inj hterm hterm'
      exact hc.reduce ((hm.items i).mpr hi) ((hm.items j).mpr hj) hi' hj' hn hn' hterm
  · intro hu
    constructor
    · intro state i j x n hi hj hx hcomplete hn hterm
      obtain ⟨σ, hσ⟩ := hholds state (lt_size_of_mem_itemsOf hi)
      exact hu.shift ⟨i, (hσ.items i).mp hi, hx⟩
        ⟨j, (hσ.items j).mp hj, hcomplete, rfl, n, hn, hterm⟩
    · intro state i j x n hi hj hi' hj' hn hn' hterm
      obtain ⟨σ, hσ⟩ := hholds state (lt_size_of_mem_itemsOf hi)
      exact hu.reduce ⟨i, (hσ.items i).mp hi, hi', rfl, n, hn, hterm⟩
        ⟨j, (hσ.items j).mp hj, hj', rfl, n, hn', hterm⟩

/-- The automaton that is built has a table if decisions are unique. -/
lemma exists_table_iff (b : LookaheadBound d g s) (hp : production < g.productions.size) :
    (∃ t, (build d g s production).table d g s production = .ok t) ↔
      (d.decisions g s production).Unique := by
  have hexact := (build_exact b hp).1
  rw [← consistent_iff hexact (build_distinct_states b hp).holds]
  constructor
  · rintro ⟨t, ht⟩
    exact consistent_of_table b hexact (build_proper b hp) ht
  · intro hc
    cases ht : (build d g s production).table d g s production with
    | ok t => exact ⟨t, rfl⟩
    | error e => exact absurd (clash_of_table hexact hp ht) hc.not_clash

end Collection

/-! ### Merged decisions -/

namespace Merging

variable {g : Grammar} {production : Nat} {c : Collection Nat}

/-- States are in one group if the symbols that lead to them have the same cores. -/
lemma groupOf_eq_iff_sameCores {σ τ : List Symbol} {m n : Nat}
    (hm : c.Holds .canonical g g.firstFollow production σ m)
    (hn : c.Holds .canonical g g.firstFollow production τ n) :
    (ofCollection c).groupOf m = (ofCollection c).groupOf n ↔ g.SameCores production σ τ := by
  rw [groupOf_eq_iff hm.lt hn.lt]
  simp only [Cores, hm.items, hn.items]
  rfl

/-- With a merged table the decisions by merged states are unique. -/
lemma unique_of_table (h : c.Distinct .canonical g g.firstFollow production)
    (hproper : ∀ state, ∀ i ∈ c.itemsOf state, (LookaheadBound.canonical g).Proper i)
    {t₀ t : ParsingTable} (ht₀ : c.table .canonical g g.firstFollow production = .ok t₀)
    (ht : (ofCollection c).table g c t₀ = .ok t) : (g.mergedDecisions production).Unique := by
  have hu := (Collection.consistent_iff h.exact h.holds).mp
    (Collection.consistent_of_table _ h.exact hproper ht₀)
  obtain ⟨b₀, rfl, ⟨hslots, -⟩, hdemand⟩ := Collection.table_spec ht₀
  obtain ⟨b, rfl, -, hcov⟩ := table_spec ht
  -- The entry of a group for a reduction that is decided in one of its states.
  have hreduce : ∀ {σ y k m}, c.Holds .canonical g g.firstFollow production σ m →
      (canonical.decisions g g.firstFollow production).reduce σ y k →
      ∃ slot, b₀.slots.get? k = some slot ∧
        b.action ((ofCollection c).groupOf m) y = .reduce slot := by
    rintro σ y k m hm ⟨i, hi, hcomplete, rfl, n, hn, hterm⟩
    have hmem := (hm.items i).mpr hi
    obtain ⟨⟨p, hp, -⟩, -⟩ := hproper m i hmem
    obtain ⟨slot, hslot, hact⟩ := (hdemand m i hmem).reduce hcomplete hp
    have hact : (b₀.finish 0).action m y = .reduce slot := hact n hn y hterm
    refine ⟨slot, hslot, ?_⟩
    rw [(hcov m).action y (by rw [hact]; simp), hact]
    rfl
  constructor
  · rintro σ y k ⟨i, hi, hx⟩ ⟨τ, hτ, hk⟩
    obtain ⟨j, hj, hx'⟩ := hτ.exists_next hi hx
    exact hu.shift ⟨j, hj, hx'⟩ hk
  · rintro σ y k l ⟨τ, hτ, hk⟩ ⟨τ', hτ', hl⟩
    obtain ⟨m, hm⟩ := h.exact.exists_holds hk.choose_spec.1
    obtain ⟨n, hn⟩ := h.exact.exists_holds hl.choose_spec.1
    obtain ⟨slot, hslot, hact⟩ := hreduce hm hk
    obtain ⟨slot', hslot', hact'⟩ := hreduce hn hl
    have hgroup := (groupOf_eq_iff_sameCores hm hn).mpr (hτ.symm.trans hτ')
    rw [hgroup, hact'] at hact
    cases hact
    exact hslots.inj _ _ _ hslot hslot'

end Merging

namespace Strategy

variable {g : Grammar} {production : Nat}

/-- Unique decisions by merged states are unique decisions by canonical ones. -/
lemma canonical_unique (h : (g.mergedDecisions production).Unique) :
    (Discipline.canonical.decisions g g.firstFollow production).Unique where
  shift hpush hreduce := h.shift hpush ⟨_, .refl g production _, hreduce⟩
  reduce hk hl := h.reduce ⟨_, .refl g production _, hk⟩ ⟨_, .refl g production _, hl⟩

/-- **There is a table if the start symbol has a single production and decisions are unique.** -/
theorem exists_table_iff {strategy : Strategy} : (∃ t, strategy.build g = .ok t) ↔
    ∃ production, g.startProduction = .ok production ∧
      (strategy.decisions g production).Unique := by
  have hlt : ∀ {production}, g.startProduction = .ok production →
      production < g.productions.size := fun hp => (canonical_collection hp).2.1
  cases strategy with
  | simple =>
    simp only [build_simple, bind_eq_ok_iff]
    constructor
    · rintro ⟨t, production, hp, ht⟩
      exact ⟨production, hp, (Collection.exists_table_iff (.plain g g.firstFollow) (hlt hp)).mp
        ⟨t, ht⟩⟩
    · rintro ⟨production, hp, hu⟩
      obtain ⟨t, ht⟩ := (Collection.exists_table_iff (.plain g g.firstFollow) (hlt hp)).mpr hu
      exact ⟨t, production, hp, ht⟩
  | canonical =>
    simp only [build_canonical, bind_eq_ok_iff]
    constructor
    · rintro ⟨t, production, hp, ht⟩
      exact ⟨production, hp, (Collection.exists_table_iff (.canonical g) (hlt hp)).mp ⟨t, ht⟩⟩
    · rintro ⟨production, hp, hu⟩
      obtain ⟨t, ht⟩ := (Collection.exists_table_iff (.canonical g) (hlt hp)).mpr hu
      exact ⟨t, production, hp, ht⟩
  | merged =>
    simp only [build_merged, bind_eq_ok_iff]
    constructor
    · rintro ⟨t, production, hp, t₀, ht₀, ht⟩
      exact ⟨production, hp, Merging.unique_of_table
        (Collection.build_distinct_states (.canonical g) (hlt hp))
        (fun state i hi => ((canonical_collection hp).2.2 state i hi).1) ht₀ ht⟩
    · rintro ⟨production, hp, hu⟩
      have hdistinct := Collection.build_distinct_states (.canonical g) (hlt hp)
      obtain ⟨t₀, ht₀⟩ := (Collection.exists_table_iff (.canonical g) (hlt hp)).mpr
        (canonical_unique hu)
      have hc := (Collection.consistent_iff hdistinct.exact hdistinct.holds).mpr
        (canonical_unique hu)
      cases ht : (Merging.ofCollection
          (Collection.build .canonical g g.firstFollow production)).table g
          (Collection.build .canonical g g.firstFollow production) t₀ with
      | ok t => exact ⟨t, production, hp, t₀, ht₀, ht⟩
      | error e =>
        cases Merging.clash_of_table hdistinct.exact hc ht₀ ht with
        | @reduceReduce m n i j x p q hgroup hi hj hi' hj' hne hl hterm hp hq =>
          obtain ⟨σ, hσ⟩ := hdistinct.holds m (Collection.lt_size_of_mem_itemsOf hi)
          obtain ⟨τ, hτ⟩ := hdistinct.holds n (Collection.lt_size_of_mem_itemsOf hj)
          have hcores := (Merging.groupOf_eq_iff_sameCores hσ hτ).mp hgroup
          have hk : (g.mergedDecisions production).reduce σ x i.production :=
            ⟨σ, .refl g production σ, i, (hσ.items i).mp hi, hi', rfl, _,
              List.mem_singleton_self _, by rw [hl]; exact hterm⟩
          have hl : (g.mergedDecisions production).reduce σ x j.production :=
            ⟨τ, hcores, j, (hτ.items j).mp hj, hj', rfl, _, List.mem_singleton_self _, hterm⟩
          exact absurd (hu.reduce hk hl) hne

end Strategy

/-! ### Tables that implement decisions -/

namespace ParsingTable

/-- The rule in a slot is the production at a place, the default rule being the start production. -/
structure Applies (t : ParsingTable) (g : Grammar) (production slot k : Nat) : Prop where
  rule : ∃ p, g.production? k = some p ∧ t.rule? slot = some p
  default : slot = t.defaultRule ↔ k = production

/-- A table whose states stand for pushed symbols and whose entries are decisions. -/
structure Implements (t : ParsingTable) (g : Grammar) (production : Nat) (D : Decisions)
    (R : Nat → List Symbol → Prop) : Prop where
  initial : R t.initial []
  shift : ∀ {state σ y n}, R state σ → t.action state y = .shift n →
    D.push σ (.terminal y) ∧ R n (.terminal y :: σ)
  goto : ∀ {state σ a n}, R state σ → t.goto? state a = some n →
    D.push σ (.nonTerminal a) ∧ R n (.nonTerminal a :: σ)
  reduce : ∀ {state σ y slot}, R state σ → t.action state y = .reduce slot →
    ∃ k, D.reduce σ y k ∧ t.Applies g production slot k
  exists_shift : ∀ {state σ y}, R state σ → D.push σ (.terminal y) →
    ∃ n, t.action state y = .shift n
  exists_goto : ∀ {state σ a}, R state σ → D.push σ (.nonTerminal a) →
    ∃ n, t.goto? state a = some n
  exists_reduce : ∀ {state σ y k}, R state σ → D.reduce σ y k →
    ∃ slot, t.action state y = .reduce slot ∧ t.Applies g production slot k

variable {g : Grammar} {production : Nat} {t : ParsingTable}

section Automata

variable {L : Type} [DecidableEq L] [Hashable L] {d : Discipline L} {s : FirstFollow}
variable {c : Collection L}

/-- A symbol that leads on stands after the dot of a valid item. -/
lemma push_of_reach (h : c.Exact d g s production) {σ : List Symbol} {x : Symbol} {n : Nat}
    (hn : c.reach? (x :: σ) = some n) : (d.decisions g s production).push σ x := by
  obtain ⟨m, hm, hrow⟩ := Option.bind_eq_some_iff.mp hn
  obtain ⟨i, hi, hx⟩ := (h.keys m x).mp ⟨n, hrow⟩
  exact ⟨i, (h.mem_itemsOf_iff hm).mp hi, hx⟩

/-- **The table of an automaton implements the decisions by its items.** -/
theorem implements_of_realizes (h : c.Exact d g s production)
    (ht : c.Realizes d g s production t) :
    t.Implements g production (d.decisions g s production) fun n σ => c.reach? σ = some n where
  initial := by
    rw [ht.initial]
    rfl
  shift hσ hact := by
    have hn := Collection.reach?_cons hσ (ht.shifted _ _ _ hact)
    exact ⟨push_of_reach h hn, hn⟩
  goto hσ hgoto := by
    have hn := Collection.reach?_cons hσ (ht.gone _ _ _ hgoto)
    exact ⟨push_of_reach h hn, hn⟩
  reduce := by
    intro state σ y slot hσ hact
    obtain ⟨i, hi, hcomplete, hrule, hslot, hterm⟩ := ht.reduced state y slot hact
    refine ⟨i.production, ⟨i, (h.mem_itemsOf_iff hσ).mp hi, hcomplete, rfl, hterm⟩, hrule, ?_⟩
    rw [ht.default]
    exact hslot
  exists_shift := by
    rintro state σ y hσ ⟨i, hi, hx⟩
    obtain ⟨n, hn, -⟩ := ht.shift state i ((h.mem_itemsOf_iff hσ).mpr hi) y hx
    exact ⟨n, hn⟩
  exists_goto := by
    rintro state σ a hσ ⟨i, hi, hx⟩
    obtain ⟨n, hn, -⟩ := ht.goto state i ((h.mem_itemsOf_iff hσ).mpr hi) a hx
    exact ⟨n, hn⟩
  exists_reduce := by
    rintro state σ y k hσ ⟨i, hi, hcomplete, rfl, n, hn, hterm⟩
    obtain ⟨p, slot, hp, hrule, hact, hslot⟩ :=
      ht.reduce state i ((h.mem_itemsOf_iff hσ).mpr hi) hcomplete n hn y hterm
    refine ⟨slot, hact, ⟨p, hp, hrule⟩, ?_⟩
    rw [ht.default]
    exact hslot

end Automata

variable {c : Collection Nat} {t₀ : ParsingTable}

/-- The rules of a merged table are those of the canonical one. -/
lemma Applies.merged {m : Merging} {slot k : Nat} (h : t₀.Applies g production slot k)
    (hdefault : t₀.defaultRule = 0) (hm : m.Merges t₀ t) : t.Applies g production slot k where
  rule := by
    obtain ⟨p, hp, hrule⟩ := h.rule
    exact ⟨p, hp, (hm.rule slot).trans hrule⟩
  default := by
    rw [hm.defaultRule, ← hdefault]
    exact h.default

/-- **A merged table implements the decisions by merged states.** -/
theorem implements_merged (hp : production < g.productions.size)
    (h : c.Distinct .canonical g g.firstFollow production)
    (hitems : ∀ state, ∀ i ∈ c.itemsOf state, ∃ σ, g.Valid production σ i)
    (ht₀ : c.Realizes .canonical g g.firstFollow production t₀)
    (ht : (Merging.ofCollection c).table g c t₀ = .ok t) :
    t.Implements g production (g.mergedDecisions production) fun n σ =>
      ∃ m, c.reach? σ = some m ∧ (Merging.ofCollection c).groupOf m = n := by
  have htracks := tracks_merged hp h.exact hitems ht₀ ht
  have himplements := implements_of_realizes h.exact ht₀
  have hmerges := Merging.merges_of_table ht
  refine ⟨htracks.initial, ?_, ?_, ?_, ?_, ?_, ?_⟩
  · intro state σ y n hσ hact
    obtain ⟨m, hm, hgroup⟩ := htracks.shift hσ hact
    exact ⟨push_of_reach h.exact hm, m, hm, hgroup⟩
  · intro state σ a n hσ hgoto
    obtain ⟨m, hm, hgroup⟩ := htracks.goto hσ hgoto
    exact ⟨push_of_reach h.exact hm, m, hm, hgroup⟩
  · rintro group σ y slot ⟨m, hm, rfl⟩ hact
    -- The reduction comes from a state of the group, in which it is decided.
    obtain ⟨state, hgroup, hreduce⟩ := (hmerges.reduce ..).mp hact
    obtain ⟨i, hi, hcomplete, hrule, hslot, hterm⟩ := ht₀.reduced state y slot hreduce
    obtain ⟨τ, hτ⟩ := h.holds state (Collection.lt_size_of_mem_itemsOf hi)
    have hcores := (Merging.groupOf_eq_iff_sameCores (h.exact.holds_of_reach hm) hτ).mp
      hgroup.symm
    refine ⟨i.production, ⟨τ, hcores, i, (hτ.items i).mp hi, hcomplete, rfl, hterm⟩, ?_⟩
    exact Applies.merged ⟨hrule, ht₀.default ▸ hslot⟩ ht₀.default hmerges
  · rintro group σ y ⟨m, hm, rfl⟩ hpush
    obtain ⟨n, hn⟩ := himplements.exists_shift hm hpush
    exact ⟨_, (hmerges.shift ..).mpr ⟨m, n, rfl, hn, rfl⟩⟩
  · rintro group σ a ⟨m, hm, rfl⟩ hpush
    obtain ⟨n, hn⟩ := himplements.exists_goto hm hpush
    exact ⟨_, (hmerges.goto ..).mpr ⟨m, n, rfl, hn, rfl⟩⟩
  · rintro group σ y k ⟨m, hm, rfl⟩ ⟨τ, hτ, hk⟩
    obtain ⟨n, hn⟩ := h.exact.exists_reach hk.choose_spec.1
    obtain ⟨slot, hact, happlies⟩ := himplements.exists_reduce hn hk
    have hgroup := (Merging.groupOf_eq_iff_sameCores (h.exact.holds_of_reach hm)
      (h.exact.holds_of_reach hn)).mpr hτ
    exact ⟨slot, (hmerges.reduce ..).mpr ⟨n, hgroup.symm, hact⟩, happlies.merged ht₀.default hmerges⟩

end ParsingTable

/-- **Built tables implement the decisions of their strategy.** -/
theorem Strategy.implements {strategy : Strategy} {g : Grammar} {t : ParsingTable}
    (ht : strategy.build g = .ok t) : ∃ production R, g.startProduction = .ok production ∧
      t.Implements g production (strategy.decisions g production) R := by
  cases strategy with
  | simple =>
    rw [build_simple] at ht
    obtain ⟨production, hp, ht⟩ := bind_eq_ok_iff.mp ht
    obtain ⟨-, hlt, -⟩ := canonical_collection hp
    have hproper := (LookaheadBound.plain g g.firstFollow).proper_inductive hlt
    obtain ⟨hexact, hitems⟩ := Collection.build_exact (LookaheadBound.plain g g.firstFollow) hlt
    exact ⟨production, _, hp, ParsingTable.implements_of_realizes hexact
      (Collection.realizes_of_table _ hexact (hitems _ hproper) ht)⟩
  | canonical =>
    rw [build_canonical] at ht
    obtain ⟨production, hp, ht⟩ := bind_eq_ok_iff.mp ht
    obtain ⟨hexact, hlt, hitems⟩ := canonical_collection hp
    exact ⟨production, _, hp, ParsingTable.implements_of_realizes hexact
      (Collection.realizes_of_table _ hexact (fun state i hi => (hitems state i hi).1) ht)⟩
  | merged =>
    rw [build_merged] at ht
    obtain ⟨production, hp, ht⟩ := bind_eq_ok_iff.mp ht
    obtain ⟨t₀, ht₀, ht⟩ := bind_eq_ok_iff.mp ht
    obtain ⟨hexact, hlt, hitems⟩ := canonical_collection hp
    obtain ⟨-, hvalid⟩ := Collection.build_exact (LookaheadBound.canonical g) hlt
    exact ⟨production, _, hp, ParsingTable.implements_merged hlt
      (Collection.build_distinct_states (.canonical g) hlt) (hvalid _ (inductive_valid production))
      (Collection.realizes_of_table _ hexact (fun state i hi => (hitems state i hi).1) ht₀) ht⟩

end Coscript
