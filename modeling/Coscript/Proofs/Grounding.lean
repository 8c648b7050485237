import Coscript.Proofs.Reduced

/-!
# What the entries of a table are grounded in

Every entry of a table is there for some item of its state. Seen without lookaheads, the items of
the states are those of one automaton for all three strategies: the target of a transition holds
nothing but what the items of the source reach over its symbol. A reduction stands only on terminals
that may follow the name of its production.

* `ParsingTable.Grounded`: entries with items behind them;
* `grounded_simple`, `grounded_canonical`, `grounded_merged`: the tables of the strategies are
  grounded;
* `Merging.core_of_groupOf`: the states of a group have the same items but for lookaheads.
-/

namespace Coscript

open Discipline

/-- A state is the target of another one over a symbol: it holds an item of the other one with its
dot moved over the symbol, and only what such items reach. -/
structure Targets (g : Grammar) (J : Nat → Item Unit → Prop) (state : Nat) (x : Symbol)
    (n : Nat) : Prop where
  moved : ∃ i, J state i ∧ i.next? g = some x ∧ J n i.advance
  only : ∀ j, J n j → plain.Goto g g.firstFollow (J state) x j

/-- Each entry of a table has an item behind it. -/
structure ParsingTable.Grounded (t : ParsingTable) (g : Grammar) (production : Nat)
    (J : Nat → Item Unit → Prop) : Prop where
  initial : J t.initial ⟨production, 0, ()⟩
  only : ∀ j, J t.initial j → plain.Reaches g g.firstFollow ⟨production, 0, ()⟩ j
  shift : ∀ state x n, t.action state x = .shift n → Targets g J state (.terminal x) n
  goto : ∀ state a n, t.goto? state a = some n → Targets g J state (.nonTerminal a) n
  reduce : ∀ state x slot, t.action state x = .reduce slot →
    ∃ i p, J state i ∧ i.next? g = none ∧ g.production? i.production = some p ∧
      t.rule? slot = some p ∧ ∃ n ∈ g.firstFollow.follow.of p.name, g.terminal? n = some x

variable {g : Grammar} {production : Nat} {t : ParsingTable}

/-- **The table without lookaheads is grounded.** -/
theorem grounded_simple {c : Collection Unit} (h : c.Exact .plain g g.firstFollow production)
    (ht : c.Realizes .plain g g.firstFollow production t) :
    t.Grounded g production fun state i => i ∈ c.itemsOf state := by
  have htarget : ∀ state x n, (c.row state).get? x = some n →
      Targets g (fun state i => i ∈ c.itemsOf state) state x n := fun state x n hrow => by
    obtain ⟨i, hi, hx⟩ := (h.keys state x).mp ⟨n, hrow⟩
    exact ⟨⟨i, hi, hx, h.advance_mem hi hx hrow⟩, fun j => ((h.goto state x n hrow).2 j).mp⟩
  refine ⟨?_, ?_, fun state x n hx => htarget _ _ _ (ht.shifted state x n hx),
    fun state a n ha => htarget _ _ _ (ht.gone state a n ha), fun state x slot hx => ?_⟩
  · rw [ht.initial]
    exact (h.start _).mpr .refl
  · rw [ht.initial]
    exact fun j => (h.start j).mp
  · obtain ⟨i, hi, hnext, ⟨p, hp, hrule⟩, -, n, hn, hterm⟩ := ht.reduced state x slot hx
    exact ⟨i, p, hi, hnext, hp, hrule, n, (mem_reduceOn_plain hp).mp hn, hterm⟩

/-! ### Cores -/

/-- The core of an item that an item with lookahead reaches is reached from its core. -/
lemma core_reaches {i j : Item Nat} (h : canonical.Reaches g g.firstFollow i j) :
    plain.Reaches g g.firstFollow i.core j.core := by
  induction h with
  | refl => exact .refl
  | tail _ hk ih =>
    obtain ⟨a, ha, hp, hdot, -⟩ := mem_implied_iff.mp hk
    exact ih.tail (mem_implied_iff.mpr ⟨a, ha, hp, hdot, List.mem_singleton.mpr rfl⟩)

/-- The items of the canonical automaton have their lookaheads in FOLLOW sets. -/
lemma inFollow_inductive {p : Production} (hp : g.production? production = some p)
    (hname : p.name = g.start) :
    canonical.Inductive g g.firstFollow production (InFollow g) where
  start := ⟨p, hp, hname ▸ g.firstFollow_closed.2.start⟩
  implied _ _ hi hj := hi.implied hj
  advance _ _ hi _ := hi

/-- The cores of the items of a state. -/
def Cores {L : Type} [DecidableEq L] [Hashable L] (c : Collection L) (state : Nat)
    (j : Item Unit) : Prop :=
  ∃ i ∈ c.itemsOf state, i.core = j

lemma mem_core_iff {L : Type} [DecidableEq L] [Hashable L] {c : Collection L} {state : Nat}
    {j : Item Unit} : j ∈ c.core state ↔ Cores c state j := by
  have general : ∀ is : List (Item L),
      j ∈ is.foldr (fun i cores => Item.place i.core cores) [] ↔ ∃ i ∈ is, i.core = j := by
    intro is
    induction is with
    | nil => simp
    | cons i is ih =>
      rw [List.foldr_cons, Item.mem_place, ih]
      simp [eq_comm]
  exact general _

lemma cores_targets {c : Collection Nat} (h : c.Exact .canonical g g.firstFollow production)
    {state n : Nat} {x : Symbol} (hrow : (c.row state).get? x = some n) :
    Targets g (Cores c) state x n := by
  obtain ⟨i, hi, hx⟩ := (h.keys state x).mp ⟨n, hrow⟩
  refine ⟨⟨i.core, ⟨i, hi, rfl⟩, hx, i.advance, h.advance_mem hi hx hrow, rfl⟩, ?_⟩
  rintro _ ⟨j, hj, rfl⟩
  obtain ⟨k, hk, hkx, hkj⟩ := ((h.goto state x n hrow).2 j).mp hj
  exact ⟨k.core, ⟨k, hk, rfl⟩, hkx, core_reaches hkj⟩

/-- **The canonical table is grounded.** -/
theorem grounded_canonical {c : Collection Nat}
    (h : c.Exact .canonical g g.firstFollow production)
    (hfollow : ∀ state, ∀ i ∈ c.itemsOf state, InFollow g i)
    (ht : c.Realizes .canonical g g.firstFollow production t) :
    t.Grounded g production (Cores c) where
  initial := by
    rw [ht.initial]
    exact ⟨_, (h.start _).mpr .refl, rfl⟩
  only := by
    rw [ht.initial]
    rintro _ ⟨i, hi, rfl⟩
    exact core_reaches ((h.start i).mp hi)
  shift state x n hx := cores_targets h (ht.shifted state x n hx)
  goto state a n ha := cores_targets h (ht.gone state a n ha)
  reduce state x slot hx := by
    obtain ⟨i, hi, hnext, ⟨p, hp, hrule⟩, -, n, hn, hterm⟩ := ht.reduced state x slot hx
    obtain ⟨q, hq, hl⟩ := hfollow state i hi
    cases hp.symm.trans hq
    obtain rfl : n = i.lookahead := List.mem_singleton.mp hn
    exact ⟨i.core, p, ⟨i, hi, rfl⟩, hnext, hp, hrule, _, hl, hterm⟩

/-! ### Groups -/

namespace Merging

/-- The groups of the first states of a collection. -/
def firstStates (c : Collection Nat) (k : Nat) : Merging :=
  (List.range k).foldl
    (fun m state =>
      ⟨(m.cores.insert (c.core state)).1, m.group.push (m.cores.insert (c.core state)).2⟩)
    ⟨.empty, #[]⟩

lemma ofCollection_eq (c : Collection Nat) : ofCollection c = firstStates c c.size := rfl

lemma firstStates_succ (c : Collection Nat) (k : Nat) :
    firstStates c (k + 1) = ⟨((firstStates c k).cores.insert (c.core k)).1,
      (firstStates c k).group.push ((firstStates c k).cores.insert (c.core k)).2⟩ := by
  rw [firstStates, List.range_succ, List.foldl_append]
  rfl

/-- Each of the first states has the group of its core. -/
lemma firstStates_spec (c : Collection Nat) (k : Nat) :
    (firstStates c k).group.size = k ∧ ∀ state < k, ∃ n,
      (firstStates c k).group[state]? = some n ∧
      (firstStates c k).cores.get? n = some (c.core state) := by
  induction k with
  | zero => simp [firstStates]
  | succ k ih =>
    obtain ⟨hsize, hgroups⟩ := ih
    rw [firstStates_succ]
    refine ⟨by simp [hsize], fun state hlt => ?_⟩
    rw [Array.getElem?_push]
    split
    · next he =>
      obtain rfl : state = k := by omega
      exact ⟨_, rfl, Numbering.get?_insert_snd _ _⟩
    · next hne =>
      obtain ⟨n, hn, hcore⟩ := hgroups state (by omega)
      exact ⟨n, hn, Numbering.get?_insert_of_get? hcore⟩

/-- **The states of a group have the same items but for lookaheads.** -/
theorem core_of_groupOf {c : Collection Nat} {m n : Nat} (hm : m < c.size) (hn : n < c.size)
    (h : (ofCollection c).groupOf m = (ofCollection c).groupOf n) : c.core m = c.core n := by
  obtain ⟨-, hgroups⟩ := firstStates_spec c c.size
  obtain ⟨i, hi, hcm⟩ := hgroups m hm
  obtain ⟨j, hj, hcn⟩ := hgroups n hn
  rw [groupOf, groupOf, ofCollection_eq, hi, hj, Option.getD_some, Option.getD_some] at h
  subst h
  exact Option.some.inj (hcm.symm.trans hcn)

end Merging

/-- **The merged table is grounded.** -/
theorem grounded_merged {c : Collection Nat} {t₀ : ParsingTable}
    (h : c.Exact .canonical g g.firstFollow production)
    (hfollow : ∀ state, ∀ i ∈ c.itemsOf state, InFollow g i)
    (ht₀ : c.Realizes .canonical g g.firstFollow production t₀)
    (ht : (Merging.ofCollection c).table g c t₀ = .ok t) :
    t.Grounded g production fun group j =>
      ∃ state < c.size, (Merging.ofCollection c).groupOf state = group ∧ Cores c state j := by
  set m := Merging.ofCollection c
  have hground := grounded_canonical h hfollow ht₀
  have hm := Merging.merges_of_table ht
  -- The items of a group are those of any of its states.
  have hcores : ∀ {n state j}, n < c.size → state < c.size → m.groupOf state = m.groupOf n →
      Cores c state j → Cores c n j := fun hn hs he hj => by
    rw [← mem_core_iff, ← Merging.core_of_groupOf hs hn he, mem_core_iff]
    exact hj
  have htarget : ∀ {state n x}, (c.row state).get? x = some n →
      Targets g (fun group j => ∃ state < c.size, m.groupOf state = group ∧ Cores c state j)
        (m.groupOf state) x (m.groupOf n) := fun {state n x} hrow => by
    obtain ⟨hlt, -⟩ := h.goto state x n hrow
    have hstate : state < c.size := by
      obtain ⟨i, hi, -⟩ := (h.keys state x).mp ⟨n, hrow⟩
      exact Collection.lt_size_of_mem_itemsOf hi
    obtain ⟨⟨i, hi, hx, hadv⟩, honly⟩ := cores_targets h hrow
    refine ⟨⟨i, ⟨state, hstate, rfl, hi⟩, hx, ⟨n, hlt, rfl, hadv⟩⟩, ?_⟩
    rintro j ⟨state', hlt', he, hj⟩
    obtain ⟨k, hk, hkx, hkj⟩ := honly j (hcores hlt hlt' he hj)
    exact ⟨k, ⟨state, hstate, rfl, hk⟩, hkx, hkj⟩
  refine ⟨⟨t₀.initial, ht₀.initial.symm ▸ h.pos, hm.initial.symm, hground.initial⟩, ?_,
    fun group x n hx => ?_, fun group a n ha => ?_, fun group x slot hx => ?_⟩
  · rintro j ⟨state, hlt, he, hj⟩
    refine hground.only j ?_
    rw [hm.initial, ht₀.initial] at he
    rw [ht₀.initial]
    exact hcores h.pos hlt he hj
  · obtain ⟨state, k, rfl, hk, rfl⟩ := (hm.shift ..).mp hx
    exact htarget (ht₀.shifted state x k hk)
  · obtain ⟨state, k, rfl, hk, rfl⟩ := (hm.goto ..).mp ha
    exact htarget (ht₀.gone state a k hk)
  · obtain ⟨state, rfl, hslot⟩ := (hm.reduce ..).mp hx
    obtain ⟨i, p, hi, hnext, hp, hrule, hterm⟩ := hground.reduce state x slot hslot
    have hlt : state < c.size := by
      obtain ⟨j, hj, -⟩ := hi
      exact Collection.lt_size_of_mem_itemsOf hj
    exact ⟨i, p, ⟨state, hlt, rfl, hi⟩, hnext, hp, (hm.rule slot).trans hrule, hterm⟩

/-- **Every built table is grounded.** -/
theorem Strategy.Built.grounded (hp : g.startProduction = .ok production)
    (h : Strategy.Built g production t) : ∃ J, t.Grounded g production J := by
  obtain ⟨p, hprod, hname, -⟩ := Grammar.startProduction_spec hp
  have hfollow := inFollow_inductive hprod hname
  cases h with
  | simple c exact realizes => exact ⟨_, grounded_simple exact realizes⟩
  | canonical c exact items realizes => exact ⟨_, grounded_canonical exact (items _ hfollow) realizes⟩
  | merged c t₀ exact items realizes merge =>
    exact ⟨_, grounded_merged exact (items _ hfollow) realizes merge⟩

end Coscript
