import Coscript.Proofs.Collection
import Coscript.Table.Construction

/-!
# Tables hold exactly what the items demand

A table is built by demands, one after the other, and a granted demand is never taken back. So the
finished table of an automaton has every entry that an item of a state demands, and each of its
entries is demanded by some item.

* `TableBuilder.Extends`: a table being built that keeps what was granted before;
* `TableBuilder.Slots`: the slots of the rules;
* `Collection.Demands`: what an item of a state demands;
* `Collection.Justified`: entries that are demanded;
* `Collection.table_spec`: the finished table.
-/

namespace Coscript

namespace TableBuilder

/-! ### Single demands -/

/-- A table in which everything granted in another one still stands. -/
structure Extends (b b' : TableBuilder) : Prop where
  actions : ∀ state x, b.action state x ≠ .error → b'.action state x = b.action state x
  gotos : ∀ state a n, b.goto? state a = some n → b'.goto? state a = some n
  slots : ∀ i slot, b.slots.get? i = some slot → b'.slots.get? i = some slot

lemma Extends.refl (b : TableBuilder) : b.Extends b :=
  ⟨fun _ _ _ => rfl, fun _ _ _ => id, fun _ _ => id⟩

lemma Extends.trans {b b' b'' : TableBuilder} (h : b.Extends b') (k : b'.Extends b'') :
    b.Extends b'' where
  actions state x hx := by
    have he := h.actions state x hx
    exact (k.actions state x (he ▸ hx)).trans he
  gotos state a n hn := k.gotos state a n (h.gotos state a n hn)
  slots i slot hs := k.slots i slot (h.slots i slot hs)

/-- The rows of a table do not depend on its rules. -/
lemma action_eq_of_rows {b b' : TableBuilder} (h : b'.rows = b.rows) : b'.action = b.action := by
  funext state x
  rw [action, action, ParsingTable.action, ParsingTable.action, finish, finish, h]

lemma goto?_eq_of_rows {b b' : TableBuilder} (h : b'.rows = b.rows) : b'.goto? = b.goto? := by
  funext state a
  rw [goto?, goto?, ParsingTable.goto?, ParsingTable.goto?, finish, finish, h]

lemma setRow_rules (b : TableBuilder) (state : Nat) (row : TableRow) :
    (b.setRow state row).rules = b.rules ∧ (b.setRow state row).slots = b.slots := ⟨rfl, rfl⟩

/-- A granted demand for an action changes no rules. -/
lemma rules_setAction {b b' : TableBuilder} {state : Nat} {x : Terminal} {a : Action}
    {items : Unit → List String} (h : b.setAction state x a items = .ok b') :
    b'.rules = b.rules ∧ b'.slots = b.slots := by
  unfold setAction at h
  split at h
  · cases h
  · dsimp only at h
    split at h
    · cases h
      exact setRow_rules _ _ _
    · split at h
      · cases h
        exact ⟨rfl, rfl⟩
      · cases h

/-- A demand for an action is granted where there is none yet, or the same one. -/
lemma action_of_setAction {b b' : TableBuilder} {state : Nat} {x : Terminal} {a : Action}
    {items : Unit → List String} (h : b.setAction state x a items = .ok b') :
    b.action state x = .error ∨ b.action state x = a := by
  unfold setAction at h
  split at h
  · cases h
  · next row hrow =>
    have hold : b.action state x = (row.actions.get? x).getD .error := by
      simp [action, finish, ParsingTable.action, hrow]
    dsimp only at h
    rw [hold]
    split at h
    · next he => exact .inl he
    · split at h
      · next he => exact .inr he
      · cases h

lemma extends_setAction {b b' : TableBuilder} {state : Nat} {x : Terminal} {a : Action}
    {items : Unit → List String} (h : b.setAction state x a items = .ok b') : b.Extends b' where
  actions s y hy := by
    rw [action_setAction h]
    split
    · next hsy =>
      obtain ⟨rfl, rfl⟩ := hsy
      exact ((action_of_setAction h).resolve_left hy).symm
    · rfl
  gotos s name n hn := by rwa [goto?_setAction h]
  slots i slot hs := by rwa [(rules_setAction h).2]

/-- A granted demand for the state after a reduction enters it and changes nothing else. -/
lemma setGoto_spec {b b' : TableBuilder} {state target : Nat} {name : String}
    (h : b.setGoto state name target = .ok b') :
    b'.rules = b.rules ∧ b'.slots = b.slots ∧ b'.action = b.action ∧
      (b.goto? state name = none ∨ b.goto? state name = some target) ∧
      ∀ s a, b'.goto? s a = if s = state ∧ a = name then some target else b.goto? s a := by
  unfold setGoto at h
  split at h
  · cases h
  · next row hrow =>
    obtain ⟨hlt, hget⟩ := Array.getElem?_eq_some_iff.mp hrow
    have hold : b.goto? state name = row.gotos.get? name := by
      simp [goto?, finish, ParsingTable.goto?, hrow]
    split at h
    · next hnone =>
      cases h
      refine ⟨rfl, rfl, ?_, .inl (hold.trans hnone), fun s a => ?_⟩
      · funext s x
        by_cases hs : s = state
        · subst hs
          simp [action, finish, setRow, ParsingTable.action, hlt, hget]
        · simp [action, finish, setRow, ParsingTable.action, Ne.symm hs]
      · by_cases hs : s = state
        · subst hs
          by_cases ha : a = name
          · subst ha
            simp [goto?, finish, setRow, ParsingTable.goto?, hlt, OrderedMap.get?_insert]
          · simp [goto?, finish, setRow, ParsingTable.goto?, hlt, hget, OrderedMap.get?_insert, ha,
              Ne.symm ha]
        · simp [goto?, finish, setRow, ParsingTable.goto?, hs, Ne.symm hs]
    · next old hsome =>
      split at h
      · next he =>
        cases h
        subst he
        refine ⟨rfl, rfl, rfl, .inr (hold.trans hsome), fun s a => ?_⟩
        split
        · next hsa =>
          obtain ⟨rfl, rfl⟩ := hsa
          exact hold.trans hsome
        · rfl
      · cases h

lemma extends_setGoto {b b' : TableBuilder} {state target : Nat} {name : String}
    (h : b.setGoto state name target = .ok b') : b.Extends b' := by
  obtain ⟨-, hslots, hact, hold, hgoto⟩ := setGoto_spec h
  refine ⟨fun s x _ => by rw [hact], fun s a n hn => ?_, fun i slot hs => by rwa [hslots]⟩
  rw [hgoto]
  split
  · next hsa =>
    obtain ⟨rfl, rfl⟩ := hsa
    rcases hold with hold | hold
    · rw [hold] at hn
      cases hn
    · exact hold.symm.trans hn
  · exact hn

/-! ### Slots -/

/-- Each rule stands in the slot of one production of the grammar, the start production's in
slot `0`. -/
structure Slots (g : Grammar) (production : Nat) (b : TableBuilder) : Prop where
  rule : ∀ i slot, b.slots.get? i = some slot →
    ∃ p, g.production? i = some p ∧ b.rules[slot]? = some p
  slot : ∀ (slot : Nat) p, b.rules[slot]? = some p → ∃ i, b.slots.get? i = some slot
  inj : ∀ i j slot, b.slots.get? i = some slot → b.slots.get? j = some slot → i = j
  start : b.slots.get? production = some 0

lemma Slots.congr {g : Grammar} {production : Nat} {b b' : TableBuilder} (h : b.Slots g production)
    (hr : b'.rules = b.rules) (hs : b'.slots = b.slots) : b'.Slots g production := by
  refine ⟨?_, ?_, ?_, ?_⟩
  · rw [hr, hs]
    exact h.rule
  · rw [hr, hs]
    exact h.slot
  · rw [hs]
    exact h.inj
  · rw [hs]
    exact h.start

lemma Slots.lt {g : Grammar} {production : Nat} {b : TableBuilder} (h : b.Slots g production)
    {i slot : Nat} (hs : b.slots.get? i = some slot) : slot < b.rules.size := by
  obtain ⟨p, -, hp⟩ := h.rule i slot hs
  exact (Array.getElem?_eq_some_iff.mp hp).1

/-- Asking for a slot changes no entry, and the rule of the slot is the production. -/
lemma slot?_spec {g : Grammar} {production : Nat} {b b' : TableBuilder} {i slot : Nat}
    (h : b.Slots g production) (hs : b.slot? g i = some (b', slot)) :
    b'.Slots g production ∧ b'.rows = b.rows ∧ b.Extends b' ∧ b'.slots.get? i = some slot := by
  unfold slot? at hs
  split at hs
  · next k hk =>
    cases hs
    exact ⟨h, rfl, .refl b, hk⟩
  · next hnone =>
    obtain ⟨p, hp, he⟩ := Option.map_eq_some_iff.mp hs
    cases he
    have hfresh : ∀ j k, (b.slots.insert i b.rules.size).get? j = some k →
        (j = i ∧ k = b.rules.size) ∨ b.slots.get? j = some k := fun j k hj => by
      rw [OrderedMap.get?_insert] at hj
      split at hj
      · next he =>
        cases hj
        exact .inl ⟨he.symm, rfl⟩
      · exact .inr hj
    have hkept : ∀ j k, b.slots.get? j = some k →
        (b.slots.insert i b.rules.size).get? j = some k := fun j k hj => by
      rw [OrderedMap.get?_insert, if_neg]
      · exact hj
      · rintro rfl
        rw [hnone] at hj
        cases hj
    refine ⟨⟨fun j k hj => ?_, fun k q hq => ?_, fun j k l hj hk => ?_, hkept _ _ h.start⟩, rfl,
      ⟨fun _ _ _ => rfl, fun _ _ _ => id, hkept⟩, OrderedMap.get?_insert_self _ _ _⟩
    · rcases hfresh j k hj with ⟨rfl, rfl⟩ | hj
      · exact ⟨p, hp, by simp⟩
      · obtain ⟨q, hq, hr⟩ := h.rule j k hj
        refine ⟨q, hq, ?_⟩
        rw [Array.getElem?_push, if_neg (Nat.ne_of_lt (h.lt hj))]
        exact hr
    · rw [Array.getElem?_push] at hq
      split at hq
      · next he =>
        cases hq
        exact ⟨i, by rw [he]; exact OrderedMap.get?_insert_self _ _ _⟩
      · obtain ⟨j, hj⟩ := h.slot k q hq
        exact ⟨j, hkept j k hj⟩
    · rcases hfresh j l hj with ⟨rfl, rfl⟩ | hj'
      · rcases hfresh k _ hk with ⟨rfl, -⟩ | hk'
        · rfl
        · exact absurd (h.lt hk') (Nat.lt_irrefl _)
      · rcases hfresh k l hk with ⟨rfl, rfl⟩ | hk'
        · exact absurd (h.lt hj') (Nat.lt_irrefl _)
        · exact h.inj j k l hj' hk'

lemma slot?_eq_none {g : Grammar} {b : TableBuilder} {i : Nat} (hs : b.slot? g i = none) :
    g.production? i = none := by
  unfold slot? at hs
  split at hs
  · cases hs
  · exact Option.map_eq_none_iff.mp hs

/-- A table of empty rows has no entries. -/
lemma withRules_entries (states : Nat) (rules : Array Production) :
    (∀ state x, (withRules states rules).action state x = .error) ∧
      ∀ state a, (withRules states rules).goto? state a = none := by
  have hrow : ∀ (state : Nat) (row : TableRow),
      (Array.replicate states TableRow.empty)[state]? = some row → row = .empty := by
    intro state row hrow
    rw [Array.getElem?_replicate] at hrow
    split at hrow
    · exact (Option.some.inj hrow).symm
    · cases hrow
  refine ⟨fun state x => ?_, fun state a => ?_⟩
  · unfold action ParsingTable.action finish withRules
    cases hr : (Array.replicate states TableRow.empty)[state]? with
    | none => rfl
    | some row =>
      rw [hrow state row hr]
      rfl
  · unfold goto? ParsingTable.goto? finish withRules
    cases hr : (Array.replicate states TableRow.empty)[state]? with
    | none => rfl
    | some row =>
      rw [hrow state row hr]
      rfl

/-- A table begins without entries and with the start production in slot `0`. -/
lemma start?_spec {g : Grammar} {states production : Nat} {b : TableBuilder}
    (h : start? g states production = some b) :
    b.Slots g production ∧ (∀ state x, b.action state x = .error) ∧
      ∀ state a, b.goto? state a = none := by
  obtain ⟨⟨b', slot⟩, hs, rfl⟩ := Option.map_eq_some_iff.mp h
  have hempty : (withRules states #[]).slots.get? production = none := rfl
  unfold slot? at hs
  rw [hempty] at hs
  obtain ⟨p, hp, he⟩ := Option.map_eq_some_iff.mp hs
  cases he
  have hslots : ∀ i k, ((withRules states #[]).slots.insert production 0).get? i = some k →
      i = production ∧ k = 0 := fun i k hi => by
    rw [OrderedMap.get?_insert] at hi
    split at hi
    · next he =>
      cases hi
      exact ⟨he.symm, rfl⟩
    · cases hi
  refine ⟨⟨fun i k hi => ?_, fun k q hq => ?_, fun i j k hi hj => ?_,
    OrderedMap.get?_insert_self _ _ _⟩, fun state x => (withRules_entries states #[]).1 state x,
    fun state a => (withRules_entries states #[]).2 state a⟩
  · obtain ⟨rfl, rfl⟩ := hslots i k hi
    exact ⟨p, hp, rfl⟩
  · refine ⟨production, ?_⟩
    have hk : k < 1 := (Array.getElem?_eq_some_iff.mp hq).1
    obtain rfl : k = 0 := by omega
    exact OrderedMap.get?_insert_self _ _ _
  · exact (hslots i k hi).1.trans (hslots j k hj).1.symm

end TableBuilder

/-! ### What items demand -/

namespace Collection

variable {L : Type} [DecidableEq L] [Hashable L]
variable {d : Discipline L} {g : Grammar} {s : FirstFollow} {production : Nat}

/-- What an item of a state demands of a table: its transition, or its reduction on the terminals
that the discipline names. -/
def Demands (d : Discipline L) (g : Grammar) (s : FirstFollow) (c : Collection L)
    (e : Nat × Item L) (b : TableBuilder) : Prop :=
  match e.2.next? g with
  | some (.terminal x) => ∀ n, (c.row e.1).get? (.terminal x) = some n → b.action e.1 x = .shift n
  | some (.nonTerminal a) => ∀ n, (c.row e.1).get? (.nonTerminal a) = some n →
    b.goto? e.1 a = some n
  | none => ∀ p, g.production? e.2.production = some p →
    ∃ slot, b.slots.get? e.2.production = some slot ∧
      ∀ n ∈ d.reduceOn g s e.2, ∀ x, g.terminal? n = some x → b.action e.1 x = .reduce slot

/-- Entries that some item of their state demands. -/
structure Justified (d : Discipline L) (g : Grammar) (s : FirstFollow) (c : Collection L)
    (b : TableBuilder) : Prop where
  shift : ∀ state x n, b.action state x = .shift n → (c.row state).get? (.terminal x) = some n
  reduce : ∀ state x slot, b.action state x = .reduce slot → ∃ i ∈ c.itemsOf state,
    i.next? g = none ∧ b.slots.get? i.production = some slot ∧
      ∃ n ∈ d.reduceOn g s i, g.terminal? n = some x
  goto : ∀ state a n, b.goto? state a = some n → (c.row state).get? (.nonTerminal a) = some n

/-- A table being built whose rules have their slots and whose entries are demanded. -/
structure Good (d : Discipline L) (g : Grammar) (s : FirstFollow) (production : Nat)
    (c : Collection L) (b : TableBuilder) : Prop where
  slots : b.Slots g production
  justified : c.Justified d g s b

/-- Demands that are met stay met. -/
lemma Demands.extend {c : Collection L} {e : Nat × Item L} {b b' : TableBuilder}
    (h : c.Demands d g s e b) (hb : b.Extends b') : c.Demands d g s e b' := by
  unfold Demands at h ⊢
  split at h
  · intro n hn
    have := h n hn
    rw [hb.actions _ _ (by rw [this]; simp), this]
  · intro n hn
    exact hb.gotos _ _ _ (h n hn)
  · intro p hp
    obtain ⟨slot, hs, hx⟩ := h p hp
    refine ⟨slot, hb.slots _ _ hs, fun n hn x hnx => ?_⟩
    have := hx n hn x hnx
    rw [hb.actions _ _ (by rw [this]; simp), this]

/-- A demand for a shift. -/
lemma Demands.shift {c : Collection L} {state n : Nat} {i : Item L} {b : TableBuilder}
    (h : c.Demands d g s (state, i) b) {x : Terminal} (hx : i.next? g = some (.terminal x))
    (hn : (c.row state).get? (.terminal x) = some n) : b.action state x = .shift n := by
  simp only [Demands, hx] at h
  exact h n hn

/-- A demand for the state after a reduction. -/
lemma Demands.goto {c : Collection L} {state n : Nat} {i : Item L} {b : TableBuilder}
    (h : c.Demands d g s (state, i) b) {a : String} (ha : i.next? g = some (.nonTerminal a))
    (hn : (c.row state).get? (.nonTerminal a) = some n) : b.goto? state a = some n := by
  simp only [Demands, ha] at h
  exact h n hn

/-- The demand for reductions by one production. -/
lemma Demands.reduce {c : Collection L} {state : Nat} {i : Item L} {b : TableBuilder}
    (h : c.Demands d g s (state, i) b) (hcomplete : i.next? g = none) {p : Production}
    (hp : g.production? i.production = some p) :
    ∃ slot, b.slots.get? i.production = some slot ∧
      ∀ n ∈ d.reduceOn g s i, ∀ x, g.terminal? n = some x → b.action state x = .reduce slot := by
  simp only [Demands, hcomplete] at h
  exact h p hp

lemma mem_terminalsIn {found : List Nat} {x : Terminal} :
    x ∈ g.terminalsIn (.ofList found) ↔ ∃ n ∈ found, g.terminal? n = some x := by
  simp only [Grammar.terminalsIn, List.mem_filterMap, ← IdSet.mem_def, IdSet.mem_ofList]

/-! ### Entering items -/

variable {c : Collection L}

/-- A granted shift that is demanded. -/
lemma good_setShift {b b' : TableBuilder} {state target : Nat} {x : Terminal}
    {items : Unit → List String} (hb : c.Good d g s production b)
    (hrow : (c.row state).get? (.terminal x) = some target)
    (h : b.setAction state x (.shift target) items = .ok b') : c.Good d g s production b' := by
  obtain ⟨hrules, hslots⟩ := TableBuilder.rules_setAction h
  refine ⟨hb.slots.congr hrules hslots, ⟨fun st y n hy => ?_, fun st y slot hy => ?_,
    fun st a n hn => ?_⟩⟩
  · rw [TableBuilder.action_setAction h] at hy
    split at hy
    · next hsy =>
      obtain ⟨rfl, rfl⟩ := hsy
      cases hy
      exact hrow
    · exact hb.justified.shift st y n hy
  · rw [TableBuilder.action_setAction h] at hy
    rw [hslots]
    split at hy
    · cases hy
    · exact hb.justified.reduce st y slot hy
  · rw [TableBuilder.goto?_setAction h] at hn
    exact hb.justified.goto st a n hn

/-- A granted reduction that is demanded. -/
lemma good_setReduce {b b' : TableBuilder} {state slot : Nat} {i : Item L} {x : Terminal}
    {items : Unit → List String} (hb : c.Good d g s production b) (hi : i ∈ c.itemsOf state)
    (hcomplete : i.next? g = none) (hslot : b.slots.get? i.production = some slot)
    (hx : ∃ n ∈ d.reduceOn g s i, g.terminal? n = some x)
    (h : b.setAction state x (.reduce slot) items = .ok b') : c.Good d g s production b' := by
  obtain ⟨hrules, hslots⟩ := TableBuilder.rules_setAction h
  refine ⟨hb.slots.congr hrules hslots, ⟨fun st y n hy => ?_, fun st y k hy => ?_,
    fun st a n hn => ?_⟩⟩
  · rw [TableBuilder.action_setAction h] at hy
    split at hy
    · cases hy
    · exact hb.justified.shift st y n hy
  · rw [TableBuilder.action_setAction h] at hy
    rw [hslots]
    split at hy
    · next hsy =>
      obtain ⟨rfl, rfl⟩ := hsy
      cases hy
      exact ⟨i, hi, hcomplete, hslot, hx⟩
    · exact hb.justified.reduce st y k hy
  · rw [TableBuilder.goto?_setAction h] at hn
    exact hb.justified.goto st a n hn

/-- A granted state after a reduction that is demanded. -/
lemma good_setGoto {b b' : TableBuilder} {state target : Nat} {name : String}
    (hb : c.Good d g s production b) (hrow : (c.row state).get? (.nonTerminal name) = some target)
    (h : b.setGoto state name target = .ok b') : c.Good d g s production b' := by
  obtain ⟨hrules, hslots, hact, -, hgoto⟩ := TableBuilder.setGoto_spec h
  refine ⟨hb.slots.congr hrules hslots, ⟨?_, ?_, fun st a n hn => ?_⟩⟩
  · rw [hact]
    exact hb.justified.shift
  · rw [hact, hslots]
    exact hb.justified.reduce
  · rw [hgoto] at hn
    split at hn
    · next hsa =>
      obtain ⟨rfl, rfl⟩ := hsa
      cases hn
      exact hrow
    · exact hb.justified.goto st a n hn

/-- Asking for a slot enters nothing. -/
lemma good_slot? {b b' : TableBuilder} {i slot : Nat} (hb : c.Good d g s production b)
    (h : b.slot? g i = some (b', slot)) : c.Good d g s production b' := by
  obtain ⟨hslots, hrows, hext, -⟩ := TableBuilder.slot?_spec hb.slots h
  refine ⟨hslots, ⟨?_, fun st y k hy => ?_, ?_⟩⟩
  · rw [TableBuilder.action_eq_of_rows hrows]
    exact hb.justified.shift
  · rw [TableBuilder.action_eq_of_rows hrows] at hy
    obtain ⟨j, hj, hc, hs, hx⟩ := hb.justified.reduce st y k hy
    exact ⟨j, hj, hc, hext.slots _ _ hs, hx⟩
  · rw [TableBuilder.goto?_eq_of_rows hrows]
    exact hb.justified.goto

/-- The table that the entries are added to has none. -/
lemma good_start? {states : Nat} {b : TableBuilder}
    (h : TableBuilder.start? g states production = some b) : c.Good d g s production b := by
  obtain ⟨hslots, hact, hgoto⟩ := TableBuilder.start?_spec h
  refine ⟨hslots, ⟨fun st x n hx => ?_, fun st x k hx => ?_, fun st a n hn => ?_⟩⟩
  · rw [hact] at hx
    cases hx
  · rw [hact] at hx
    cases hx
  · rw [hgoto] at hn
    cases hn

/-- Entering a reduction on several terminals meets the demand for each of them. -/
lemma enterReductions_spec {b b' : TableBuilder} {state slot : Nat} {i : Item L}
    {xs : List Terminal} {items : Unit → List String} (hb : c.Good d g s production b)
    (hi : i ∈ c.itemsOf state) (hcomplete : i.next? g = none)
    (hslot : b.slots.get? i.production = some slot)
    (hxs : ∀ x ∈ xs, ∃ n ∈ d.reduceOn g s i, g.terminal? n = some x)
    (h : xs.foldlM (fun b x => b.setAction state x (.reduce slot) items) b = .ok b') :
    c.Good d g s production b' ∧ b.Extends b' ∧ ∀ x ∈ xs, b'.action state x = .reduce slot := by
  obtain ⟨⟨hgood, -, hext⟩, hdemand, -⟩ := foldlM_demand
    (P := fun b' => c.Good d g s production b' ∧ b'.slots.get? i.production = some slot ∧
      b.Extends b')
    (Q := fun x b' => b'.action state x = .reduce slot) ⟨hb, hslot, .refl b⟩
    (fun b₁ b₂ x hx ⟨h₁, h₂, h₃⟩ hset => by
      have hstep := TableBuilder.extends_setAction hset
      refine ⟨⟨good_setReduce h₁ hi hcomplete h₂ (hxs x hx) hset, hstep.slots _ _ h₂,
        h₃.trans hstep⟩, ?_, fun y hy => ?_⟩
      · rw [TableBuilder.action_setAction hset, if_pos ⟨rfl, rfl⟩]
      · rw [hstep.actions _ _ (by rw [hy]; simp), hy]) h
  exact ⟨hgood, hext, hdemand⟩

/-- **Entering an item meets its demand and keeps what was granted.** -/
theorem enterItem_spec {b b' : TableBuilder} {state : Nat} {i : Item L}
    (hb : c.Good d g s production b) (hi : i ∈ c.itemsOf state)
    (h : c.enterItem d g s state b i = .ok b') :
    c.Good d g s production b' ∧ b.Extends b' ∧ c.Demands d g s (state, i) b' := by
  unfold enterItem at h
  unfold Demands
  dsimp only at h ⊢
  cases hnext : i.next? g with
  | none =>
    simp only [hnext] at h ⊢
    cases hslot : b.slot? g i.production with
    | none =>
      simp only [hslot] at h
      cases h
      refine ⟨hb, .refl b, fun p hp => ?_⟩
      rw [TableBuilder.slot?_eq_none hslot] at hp
      cases hp
    | some r =>
      obtain ⟨b₁, slot⟩ := r
      simp only [hslot] at h
      obtain ⟨-, -, hext, hget⟩ := TableBuilder.slot?_spec hb.slots hslot
      obtain ⟨hgood', hext', hall⟩ := enterReductions_spec (good_slot? hb hslot) hi hnext hget
        (fun x hx => mem_terminalsIn.mp hx) h
      refine ⟨hgood', hext.trans hext', fun p _ => ⟨slot, hext'.slots _ _ hget, fun n hn x hx => ?_⟩⟩
      exact hall x (mem_terminalsIn.mpr ⟨n, hn, hx⟩)
  | some y =>
    cases y with
    | terminal x =>
      simp only [hnext] at h ⊢
      cases hrow : (c.row state).get? (.terminal x) with
      | none =>
        simp only [hrow] at h
        cases h
        exact ⟨hb, .refl b, fun n hn => (by cases hn)⟩
      | some target =>
        simp only [hrow] at h
        refine ⟨good_setShift hb hrow h, TableBuilder.extends_setAction h, fun n hn => ?_⟩
        cases hn
        rw [TableBuilder.action_setAction h, if_pos ⟨rfl, rfl⟩]
    | nonTerminal a =>
      simp only [hnext] at h ⊢
      cases hrow : (c.row state).get? (.nonTerminal a) with
      | none =>
        simp only [hrow] at h
        cases h
        exact ⟨hb, .refl b, fun n hn => (by cases hn)⟩
      | some target =>
        simp only [hrow] at h
        refine ⟨good_setGoto hb hrow h, TableBuilder.extends_setGoto h, fun n hn => ?_⟩
        cases hn
        obtain ⟨-, -, -, -, hgoto⟩ := TableBuilder.setGoto_spec h
        rw [hgoto, if_pos ⟨rfl, rfl⟩]

/-- Entering a state meets the demands of its items. -/
lemma enterState_spec {b b' : TableBuilder} {state : Nat} (hb : c.Good d g s production b)
    (h : c.enterState d g s b state = .ok b') :
    c.Good d g s production b' ∧ b.Extends b' ∧
      ∀ i ∈ c.itemsOf state, c.Demands d g s (state, i) b' := by
  obtain ⟨⟨hgood, hext⟩, hdemand, -⟩ := foldlM_demand
    (P := fun b' => c.Good d g s production b' ∧ b.Extends b')
    (Q := fun i b' => c.Demands d g s (state, i) b') ⟨hb, .refl b⟩
    (fun b₁ b₂ i hi ⟨h₁, h₂⟩ hstep => by
      obtain ⟨hg, he, hd⟩ := enterItem_spec h₁ hi hstep
      exact ⟨⟨hg, h₂.trans he⟩, hd, fun j hj => hj.extend he⟩) h
  exact ⟨hgood, hext, hdemand⟩

/-- **The finished table has the entries that the items of the states demand, and no others.** -/
theorem table_spec {t : ParsingTable} (h : c.table d g s production = .ok t) :
    ∃ b : TableBuilder, t = b.finish 0 ∧ c.Good d g s production b ∧
      ∀ state, ∀ i ∈ c.itemsOf state, c.Demands d g s (state, i) b := by
  unfold table at h
  split at h
  · cases h
  · next b₀ hstart =>
    cases hfold : (List.range c.size).foldlM (c.enterState d g s) b₀ with
    | error e =>
      rw [hfold] at h
      cases h
    | ok b =>
      rw [hfold] at h
      cases h
      obtain ⟨hb, hdemand, -⟩ := foldlM_demand (P := fun b' => c.Good d g s production b')
        (Q := fun state b' => ∀ i ∈ c.itemsOf state, c.Demands d g s (state, i) b')
        (good_start? hstart)
        (fun b₁ b₂ state _ h₁ hstep => by
          obtain ⟨hg, he, hd⟩ := enterState_spec h₁ hstep
          exact ⟨hg, hd, fun st hst i hi => (hst i hi).extend he⟩) hfold
      exact ⟨b, rfl, hb, fun state i hi =>
        hdemand state (List.mem_range.mpr (lt_size_of_mem_itemsOf hi)) i hi⟩

end Collection

end Coscript
