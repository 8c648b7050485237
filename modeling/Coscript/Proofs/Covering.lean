import Coscript.Proofs.Merging

/-!
# What a table covers

A state of a table **covers** an item with one terminal of lookahead if the table does in that state
whatever the item asks for. Completeness of parsing needs no more than that the covered items begin
with the start item, are closed under implications and transitions, and that complete items are
reduced on their lookaheads. The three strategies cover different items by the same states:

* `covers_simple`: items whose core is in the state and whose lookahead is in a FOLLOW set;
* `covers_canonical`: the items of the state;
* `covers_merged`: the items of all states of the group.

`Strategy.Built` says how the tables of the strategies come about, and `Strategy.covers` that all of
them cover items.
-/

namespace Coscript

open Discipline

/-! ### Tables of automata -/

namespace Item

variable {L : Type} {g : Grammar}

@[simp] lemma next?_core (i : Item L) : i.core.next? g = i.next? g := rfl

@[simp] lemma core_advance (i : Item L) : i.advance.core = i.core.advance := rfl

/-- The symbol after a dot is in the body of the production. -/
lemma exists_production_of_next? {i : Item L} {x : Symbol} (h : i.next? g = some x) :
    ∃ p, g.production? i.production = some p ∧ p.body[i.dot]? = some x :=
  Option.bind_eq_some_iff.mp h

/-- What is left of a body begins with the symbol after the dot. -/
lemma next?_of_drop {i : Item L} {p : Production} {x : Symbol} {xs : List Symbol}
    (hp : g.production? i.production = some p) (h : p.body.drop i.dot = x :: xs) :
    i.next? g = some x ∧ i.rest g = xs := by
  constructor
  · rw [next?, hp, Option.bind_some, ← List.head?_drop, h, List.head?_cons]
  · rw [rest, hp, Option.map_some, Option.getD_some, ← List.tail_drop, h, List.tail_cons]

/-- The body of a production around the symbol after a dot. -/
lemma body_eq_of_next? {i : Item L} {x : Symbol} {p : Production}
    (hp : g.production? i.production = some p) (h : i.next? g = some x) :
    p.body = p.body.take i.dot ++ x :: i.rest g := by
  obtain ⟨q, hq, hx⟩ := exists_production_of_next? h
  cases hp.symm.trans hq
  obtain ⟨hlt, hget⟩ := List.getElem?_eq_some_iff.mp hx
  rw [rest, hp, Option.map_some, Option.getD_some, ← hget, ← List.drop_eq_getElem_cons hlt,
    List.take_append_drop]

end Item

/-- The facts about a table that parsing with it depends on: what the items of a collection demand
is entered, and what is entered is demanded. -/
structure Collection.Realizes {L : Type} [DecidableEq L] [Hashable L] (d : Discipline L)
    (g : Grammar) (s : FirstFollow) (production : Nat) (c : Collection L) (t : ParsingTable) :
    Prop where
  initial : t.initial = 0
  default : t.defaultRule = 0
  rule : ∀ slot p, t.rule? slot = some p →
    ∃ i, g.production? i = some p ∧ (slot = 0 ↔ i = production)
  shift : ∀ state, ∀ i ∈ c.itemsOf state, ∀ x, i.next? g = some (.terminal x) →
    ∃ n, t.action state x = .shift n ∧ i.advance ∈ c.itemsOf n
  goto : ∀ state, ∀ i ∈ c.itemsOf state, ∀ a, i.next? g = some (.nonTerminal a) →
    ∃ n, t.goto? state a = some n ∧ i.advance ∈ c.itemsOf n
  reduce : ∀ state, ∀ i ∈ c.itemsOf state, i.next? g = none → ∀ n ∈ d.reduceOn g s i, ∀ x,
    g.terminal? n = some x → ∃ p slot, g.production? i.production = some p ∧
      t.rule? slot = some p ∧ t.action state x = .reduce slot ∧ (slot = 0 ↔ i.production = production)
  shifted : ∀ state x n, t.action state x = .shift n → (c.row state).get? (.terminal x) = some n
  reduced : ∀ state x slot, t.action state x = .reduce slot → ∃ i ∈ c.itemsOf state,
    i.next? g = none ∧ (∃ p, g.production? i.production = some p ∧ t.rule? slot = some p) ∧
      (slot = 0 ↔ i.production = production) ∧ ∃ n ∈ d.reduceOn g s i, g.terminal? n = some x
  gone : ∀ state a n, t.goto? state a = some n → (c.row state).get? (.nonTerminal a) = some n

namespace Collection

variable {L : Type} [DecidableEq L] [Hashable L]
variable {d : Discipline L} {g : Grammar} {s : FirstFollow} {production : Nat}
variable {c : Collection L} {t : ParsingTable}

/-- A moved dot leads into the target of the transition. -/
lemma Exact.advance_mem (h : c.Exact d g s production) {state n : Nat} {i : Item L} {x : Symbol}
    (hi : i ∈ c.itemsOf state) (hx : i.next? g = some x)
    (hn : (c.row state).get? x = some n) : i.advance ∈ c.itemsOf n :=
  ((h.goto state x n hn).2 _).mpr ⟨i, hi, hx, .refl⟩

/-- **The table of an automaton realizes it.** -/
theorem realizes_of_table (b : LookaheadBound d g s) (h : c.Exact d g s production)
    (hproper : ∀ state, ∀ i ∈ c.itemsOf state, b.Proper i)
    (ht : c.table d g s production = .ok t) : c.Realizes d g s production t := by
  obtain ⟨b', rfl, ⟨hslots, hjust⟩, hdemand⟩ := table_spec ht
  have hzero : ∀ i slot, b'.slots.get? i = some slot → (slot = 0 ↔ i = production) :=
    fun i slot hs => by
      constructor
      · rintro rfl
        exact hslots.inj _ _ _ hs hslots.start
      · rintro rfl
        exact Option.some.inj (hs.symm.trans hslots.start)
  refine ⟨rfl, rfl, fun slot p hp => ?_, fun state i hi x hx => ?_, fun state i hi a ha => ?_,
    fun state i hi hnext n hn x hx => ?_, hjust.shift, fun state x slot hx => ?_, hjust.goto⟩
  · obtain ⟨i, hi⟩ := hslots.slot slot p hp
    obtain ⟨q, hq, hr⟩ := hslots.rule i slot hi
    cases hr.symm.trans hp
    exact ⟨i, hq, hzero i slot hi⟩
  · obtain ⟨n, hn⟩ := (h.keys state _).mpr ⟨i, hi, hx⟩
    exact ⟨n, (hdemand state i hi).shift hx hn, h.advance_mem hi hx hn⟩
  · obtain ⟨n, hn⟩ := (h.keys state _).mpr ⟨i, hi, ha⟩
    exact ⟨n, (hdemand state i hi).goto ha hn, h.advance_mem hi ha hn⟩
  · obtain ⟨⟨p, hp, -⟩, -⟩ := hproper state i hi
    obtain ⟨slot, hs, hall⟩ := (hdemand state i hi).reduce hnext hp
    obtain ⟨q, hq, hr⟩ := hslots.rule _ slot hs
    cases hp.symm.trans hq
    exact ⟨p, slot, hp, hr, hall n hn x hx, hzero _ slot hs⟩
  · obtain ⟨i, hi, hnext, hs, hcol⟩ := hjust.reduce state x slot hx
    exact ⟨i, hi, hnext, hslots.rule _ slot hs, hzero _ slot hs, hcol⟩

/-- Entries are in the columns of numbered terminals. -/
lemma Realizes.exists_terminal? (ht : c.Realizes d g s production t)
    (h : c.Exact d g s production) {state : Nat} {x : Terminal}
    (hx : t.action state x ≠ .error) : ∃ n, g.terminal? n = some x := by
  cases ha : t.action state x with
  | error => exact absurd ha hx
  | shift n =>
    obtain ⟨i, -, hi⟩ := (h.keys state _).mp ⟨n, ht.shifted state x n ha⟩
    obtain ⟨p, hp, hget⟩ := Item.exists_production_of_next? hi
    have hmem : Symbol.terminal x ∈ p.body := List.mem_of_getElem? hget
    refine Grammar.exists_terminal?_iff.mpr (.inr (.inr ?_))
    exact Grammar.mem_usedTerminals_iff.mpr ⟨_, p, hp, hmem⟩
  | reduce slot =>
    obtain ⟨i, -, -, -, -, n, -, hn⟩ := ht.reduced state x slot ha
    exact ⟨n, hn⟩

end Collection

/-! ### Covered items -/

/-- The states of a table cover items: it does what they ask for. -/
structure ParsingTable.Covers (t : ParsingTable) (g : Grammar) (production : Nat)
    (I : Nat → Item Nat → Prop) : Prop where
  initial : I t.initial ⟨production, 0, Grammar.endOfInput⟩
  implied : ∀ {state i j}, I state i → j ∈ canonical.implied g g.firstFollow i → I state j
  shift : ∀ {state i x}, I state i → i.next? g = some (.terminal x) →
    ∃ n, t.action state x = .shift n ∧ I n i.advance
  goto : ∀ {state i a}, I state i → i.next? g = some (.nonTerminal a) →
    ∃ n, t.goto? state a = some n ∧ I n i.advance
  reduce : ∀ {state i x}, I state i → i.next? g = none → g.terminal? i.lookahead = some x →
    ∃ p slot, g.production? i.production = some p ∧ t.rule? slot = some p ∧
      t.action state x = .reduce slot ∧ (slot = t.defaultRule ↔ i.production = production)
  columns : ∀ {state x}, t.action state x ≠ .error → ∃ n, g.terminal? n = some x
  rules : ∀ {slot p}, t.rule? slot = some p →
    ∃ i, g.production? i = some p ∧ (slot = t.defaultRule ↔ i = production)

namespace Grammar

/-- The start production is the only production of the start symbol. -/
lemma startProduction_spec {g : Grammar} {production : Nat}
    (h : g.startProduction = .ok production) :
    ∃ p, g.production? production = some p ∧ p.name = g.start ∧
      ∀ i q, g.production? i = some q → q.name = g.start → i = production := by
  unfold startProduction at h
  split at h
  · next k hk =>
    cases h
    obtain ⟨p, hp, hname⟩ := mem_productionsOf_iff.mp (hk ▸ List.mem_singleton_self production)
    refine ⟨p, hp, hname, fun i q hq hqname => ?_⟩
    have := mem_productionsOf_iff.mpr ⟨q, hq, hqname⟩
    rw [hk] at this
    exact List.mem_singleton.mp this
  · cases h

lemma lt_of_startProduction {g : Grammar} {production : Nat}
    (h : g.startProduction = .ok production) : production < g.productions.size := by
  obtain ⟨p, hp, -⟩ := startProduction_spec h
  exact (Array.getElem?_eq_some_iff.mp hp).1

end Grammar

variable {g : Grammar} {production : Nat} {t : ParsingTable}

/-- The lookahead of an item is in the FOLLOW set of its name. -/
def InFollow (g : Grammar) (i : Item Nat) : Prop :=
  ∃ p, g.production? i.production = some p ∧ i.lookahead ∈ g.firstFollow.follow.of p.name

/-- An item with its lookahead in a FOLLOW set implies such items only. -/
lemma InFollow.implied {i j : Item Nat} (hi : InFollow g i)
    (hj : j ∈ canonical.implied g g.firstFollow i) : InFollow g j := by
  obtain ⟨q, hq, hl⟩ := hi
  obtain ⟨a, ha, hprod, -, hlook⟩ := mem_implied_iff.mp hj
  obtain ⟨r, hr, hrname⟩ := Grammar.mem_productionsOf_iff.mp hprod
  have hbody := Item.body_eq_of_next? hq ha
  have hfollow := g.firstFollow_closed.2
  have hlook : j.lookahead ∈ lookaheadsBehind g g.firstFollow i := hlook
  unfold lookaheadsBehind at hlook
  dsimp only at hlook
  refine ⟨r, hr, ?_⟩
  rw [hrname]
  split at hlook
  · next hend =>
    rcases IdSet.mem_insert.mp hlook with he | hlook
    · rw [he]
      exact hfollow.vanishing _ q hq _ a _ hbody hend _ hl
    · exact hfollow.leading _ q hq _ a _ hbody _ hlook
  · exact hfollow.leading _ q hq _ a _ hbody _ hlook

/-- The items with one terminal of lookahead that a state without lookaheads covers. -/
def SimpleItems (g : Grammar) (c : Collection Unit) (state : Nat) (i : Item Nat) : Prop :=
  i.core ∈ c.itemsOf state ∧ InFollow g i

/-- **Items without lookaheads cover those with lookaheads from the FOLLOW sets.** -/
theorem covers_simple {c : Collection Unit} (h : c.Exact .plain g g.firstFollow production)
    (ht : c.Realizes .plain g g.firstFollow production t) {p : Production}
    (hp : g.production? production = some p) (hname : p.name = g.start) :
    t.Covers g production (SimpleItems g c) where
  initial := by
    rw [ht.initial]
    refine ⟨(h.start _).mpr .refl, p, hp, ?_⟩
    rw [hname]
    exact g.firstFollow_closed.2.start
  implied := by
    rintro state i j ⟨hi, hl⟩ hj
    obtain ⟨a, ha, hprod, hdot, -⟩ := mem_implied_iff.mp hj
    refine ⟨h.closed state _ _ hi (.single ?_), hl.implied hj⟩
    exact mem_implied_iff.mpr ⟨a, ha, hprod, hdot, List.mem_singleton.mpr rfl⟩
  shift := by
    rintro state i x ⟨hi, hl⟩ hx
    obtain ⟨n, hn, hadv⟩ := ht.shift state i.core hi x hx
    exact ⟨n, hn, hadv, hl⟩
  goto := by
    rintro state i a ⟨hi, hl⟩ ha
    obtain ⟨n, hn, hadv⟩ := ht.goto state i.core hi a ha
    exact ⟨n, hn, hadv, hl⟩
  reduce := by
    rintro state i x ⟨hi, q, hq, hl⟩ hnext hx
    have hon : i.lookahead ∈ plain.reduceOn g g.firstFollow i.core :=
      (mem_reduceOn_plain (i := i.core) hq).mpr hl
    rw [ht.default]
    exact ht.reduce state i.core hi hnext _ hon x hx
  columns := ht.exists_terminal? h
  rules := by
    rw [ht.default]
    exact ht.rule _ _

/-- **Items with one terminal of lookahead cover themselves.** -/
theorem covers_canonical {c : Collection Nat} (h : c.Exact .canonical g g.firstFollow production)
    (ht : c.Realizes .canonical g g.firstFollow production t) :
    t.Covers g production fun state i => i ∈ c.itemsOf state where
  initial := by
    rw [ht.initial]
    exact (h.start _).mpr .refl
  implied hi hj := h.closed _ _ _ hi (.single hj)
  shift hi hx := ht.shift _ _ hi _ hx
  goto hi ha := ht.goto _ _ hi _ ha
  reduce hi hnext hx := by
    rw [ht.default]
    exact ht.reduce _ _ hi hnext _ (List.mem_singleton_self _) _ hx
  columns := ht.exists_terminal? h
  rules := by
    rw [ht.default]
    exact ht.rule _ _

/-- **Groups of states cover the items of all their states.** -/
theorem covers_merged {c : Collection Nat} {m : Merging} {t₀ : ParsingTable}
    {I : Nat → Item Nat → Prop} (h : t₀.Covers g production I) (hdefault : t₀.defaultRule = 0)
    (ht : m.table g c t₀ = .ok t) :
    t.Covers g production fun group i => ∃ state, m.groupOf state = group ∧ I state i := by
  have hm := Merging.merges_of_table ht
  have hslot : t.defaultRule = t₀.defaultRule := hm.defaultRule.trans hdefault.symm
  refine ⟨⟨_, hm.initial.symm, h.initial⟩, ?_, ?_, ?_, ?_, ?_, ?_⟩
  · rintro group i j ⟨state, hs, hi⟩ hj
    exact ⟨state, hs, h.implied hi hj⟩
  · rintro group i x ⟨state, rfl, hi⟩ hx
    obtain ⟨n, hn, hadv⟩ := h.shift hi hx
    exact ⟨m.groupOf n, (hm.shift ..).mpr ⟨state, n, rfl, hn, rfl⟩, n, rfl, hadv⟩
  · rintro group i a ⟨state, rfl, hi⟩ ha
    obtain ⟨n, hn, hadv⟩ := h.goto hi ha
    exact ⟨m.groupOf n, (hm.goto ..).mpr ⟨state, n, rfl, hn, rfl⟩, n, rfl, hadv⟩
  · rintro group i x ⟨state, rfl, hi⟩ hnext hx
    obtain ⟨p, slot, hp, hr, hact, hd⟩ := h.reduce hi hnext hx
    exact ⟨p, slot, hp, (hm.rule slot).trans hr, (hm.reduce ..).mpr ⟨state, rfl, hact⟩,
      hslot ▸ hd⟩
  · intro group x hx
    obtain ⟨state, hne⟩ := hm.exists_action hx
    exact h.columns hne
  · intro slot p hp
    rw [hslot]
    exact h.rules ((hm.rule slot).symm.trans hp)

/-! ### Strategies -/

namespace Strategy

/-- How a table comes about: from the automaton of its strategy, for the merged table by way of the
canonical one. -/
inductive Built (g : Grammar) (production : Nat) (t : ParsingTable) : Prop
  | simple (c : Collection Unit) (exact : c.Exact .plain g g.firstFollow production)
    (realizes : c.Realizes .plain g g.firstFollow production t)
  | canonical (c : Collection Nat) (exact : c.Exact .canonical g g.firstFollow production)
    (items : ∀ Q, Discipline.canonical.Inductive g g.firstFollow production Q →
      ∀ state, ∀ i ∈ c.itemsOf state, Q i)
    (realizes : c.Realizes .canonical g g.firstFollow production t)
  | merged (c : Collection Nat) (t₀ : ParsingTable)
    (exact : c.Exact .canonical g g.firstFollow production)
    (items : ∀ Q, Discipline.canonical.Inductive g g.firstFollow production Q →
      ∀ state, ∀ i ∈ c.itemsOf state, Q i)
    (realizes : c.Realizes .canonical g g.firstFollow production t₀)
    (merge : (Merging.ofCollection c).table g c t₀ = .ok t)

/-- A construction takes the start production, and finishes the table of its collection. -/
lemma exists_table_of_constructWith {L : Type} [DecidableEq L] [Hashable L] {d : Discipline L}
    {finish : Collection L → ParsingTable → Except TableError ParsingTable × List LogEntry}
    (h : (constructWith d g finish).outcome = .ok t) : ∃ (production : Nat) (t₀ : ParsingTable),
      g.startProduction = .ok production ∧
      (Collection.build d g g.firstFollow production).table d g g.firstFollow production = .ok t₀ ∧
      (finish (Collection.build d g g.firstFollow production) t₀).1 = .ok t := by
  unfold constructWith at h
  split at h
  · cases h
  · next production hp =>
    dsimp only at h
    split at h
    · cases h
    · next t₀ ht => exact ⟨production, t₀, hp, ht, h⟩

/-- A construction succeeds if there is a start production, the table of the collection and what is
made of it. -/
lemma constructWith_eq_ok {L : Type} [DecidableEq L] [Hashable L] {d : Discipline L}
    (b : LookaheadBound d g g.firstFollow)
    {finish : Collection L → ParsingTable → Except TableError ParsingTable × List LogEntry}
    (h : (constructWith d g finish).outcome = .ok t) :
    ∃ (production : Nat) (c : Collection L) (t₀ : ParsingTable),
      g.startProduction = .ok production ∧ c.Exact d g g.firstFollow production ∧
      (∀ Q, d.Inductive g g.firstFollow production Q → ∀ state, ∀ i ∈ c.itemsOf state, Q i) ∧
      c.Realizes d g g.firstFollow production t₀ ∧ (finish c t₀).1 = .ok t := by
  obtain ⟨production, t₀, hp, ht, he⟩ := exists_table_of_constructWith h
  have hlt := Grammar.lt_of_startProduction hp
  obtain ⟨hexact, hitems⟩ := Collection.build_exact b hlt
  exact ⟨production, _, t₀, hp, hexact, hitems,
    Collection.realizes_of_table b hexact (Collection.build_proper b hlt) ht, he⟩

/-- Every built table comes about in one of the three ways. -/
theorem built {strategy : Strategy} (h : strategy.build g = .ok t) :
    ∃ production, g.startProduction = .ok production ∧ Built g production t := by
  cases strategy with
  | simple =>
    obtain ⟨production, c, t₀, hp, hexact, -, hrealizes, he⟩ :=
      constructWith_eq_ok (.plain g g.firstFollow) h
    cases he
    exact ⟨production, hp, .simple c hexact hrealizes⟩
  | canonical =>
    obtain ⟨production, c, t₀, hp, hexact, hitems, hrealizes, he⟩ :=
      constructWith_eq_ok (.canonical g) h
    cases he
    exact ⟨production, hp, .canonical c hexact hitems hrealizes⟩
  | merged =>
    obtain ⟨production, c, t₀, hp, hexact, hitems, hrealizes, he⟩ :=
      constructWith_eq_ok (.canonical g) h
    dsimp only at he
    split at he
    · cases he
    · next t₁ hmerge =>
      cases he
      exact ⟨production, hp, .merged c t₀ hexact hitems hrealizes hmerge⟩

/-- **Every built table covers items.** -/
theorem Built.covers (hp : g.startProduction = .ok production) (h : Built g production t) :
    ∃ I, t.Covers g production I := by
  obtain ⟨p, hprod, hname, -⟩ := Grammar.startProduction_spec hp
  cases h with
  | simple c exact realizes => exact ⟨_, covers_simple exact realizes hprod hname⟩
  | canonical c exact _ realizes => exact ⟨_, covers_canonical exact realizes⟩
  | merged c t₀ exact _ realizes merge =>
    exact ⟨_, covers_merged (covers_canonical exact realizes) realizes.default merge⟩

end Strategy

end Coscript
