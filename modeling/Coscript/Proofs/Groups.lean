import Coscript.Proofs.Conflicts
import Coscript.Proofs.Grounding
import Coscript.Proofs.ValidItems
import Mathlib.Data.List.Sort

/-!
# Groups of states

The states of the canonical automaton that have the same items but for lookaheads form a group.
Which items an item implies, but for their lookaheads, does not depend on its own lookahead: the
terminals behind a name are those that may begin what stands there, and the item's lookahead is one
more only if all of it can vanish. So from the states of a group every symbol leads into one group.

A merged table can only be refused for two reductions: the states of a group have the same shifts,
and a shift in one of them and a reduction in another one would be in conflict in the first one.

* `Merging.groupOf_eq_iff`: groups are the classes of states with the same cores;
* `cores_of_target`: the states of a group have their targets in one group;
* `Merging.clash_of_table`: why a merged table is refused.
-/

namespace Coscript

open Discipline

/-! ### Lists of cores -/

namespace Item

/-- The strict order of items without lookaheads: by production, then by dot. -/
def Before (i j : Item Unit) : Prop :=
  i.production < j.production ∨ i.production = j.production ∧ i.dot < j.dot

instance : Std.Irrefl Before where
  irrefl i h := by
    rcases h with h | ⟨-, h⟩ <;> exact Nat.lt_irrefl _ h

instance : Std.Antisymm Before where
  antisymm i j h h' := by
    exfalso
    rcases h with h | ⟨h, k⟩ <;> rcases h' with h' | ⟨h', k'⟩ <;> omega

lemma Before.trans {i j k : Item Unit} (h : i.Before j) (h' : j.Before k) : i.Before k := by
  unfold Before at *
  omega

lemma before_of_precedes {i j : Item Unit} (hne : i ≠ j) (h : precedes i j = true) :
    i.Before j := by
  simp only [precedes, Bool.or_eq_true, Bool.and_eq_true, decide_eq_true_eq, beq_iff_eq] at h
  rcases h with h | ⟨h, hdot⟩
  · exact .inl h
  · refine .inr ⟨h, lt_of_le_of_ne hdot ?_⟩
    intro he
    apply hne
    cases i
    cases j
    cases h
    cases he
    rfl

lemma before_of_not_precedes {i j : Item Unit} (h : ¬ precedes i j = true) : j.Before i := by
  simp only [precedes, Bool.or_eq_true, Bool.and_eq_true, decide_eq_true_eq, beq_iff_eq] at h
  unfold Before
  omega

/-- An item that is put in its place keeps a list in order. -/
lemma pairwise_place {js : List (Item Unit)} (h : js.Pairwise Before) (i : Item Unit) :
    (place i js).Pairwise Before := by
  induction js with
  | nil => simp [place]
  | cons j js ih =>
    obtain ⟨hj, hjs⟩ := List.pairwise_cons.mp h
    unfold place
    split
    · exact h
    · next hne =>
      split
      · next hle =>
        have hij := before_of_precedes hne hle
        refine List.pairwise_cons.mpr ⟨?_, h⟩
        intro k hk
        rcases List.mem_cons.mp hk with rfl | hk
        · exact hij
        · exact hij.trans (hj k hk)
      · next hnle =>
        refine List.pairwise_cons.mpr ⟨?_, ih hjs⟩
        intro k hk
        rcases mem_place.mp hk with rfl | hk
        · exact before_of_not_precedes hnle
        · exact hj k hk

end Item

section Lists

variable {L L' : Type} [DecidableEq L] [Hashable L] [DecidableEq L'] [Hashable L']

lemma Collection.pairwise_core (c : Collection L) (state : Nat) :
    (c.core state).Pairwise Item.Before := by
  unfold Collection.core
  induction c.itemsOf state with
  | nil => exact .nil
  | cons i is ih => exact Item.pairwise_place ih i.core

/-- States with the same cores have the same list of cores, also in two collections. -/
lemma Collection.core_eq_of_cores {c : Collection L} {c' : Collection L'} {m n : Nat}
    (h : ∀ j, Cores c m j ↔ Cores c' n j) : c.core m = c'.core n := by
  refine (c.pairwise_core m).eq_of_mem_iff (c'.pairwise_core n) ?_
  intro j
  rw [mem_core_iff, mem_core_iff, h]

end Lists

namespace Merging

/-- **The groups are the classes of states with the same cores.** -/
theorem groupOf_eq_iff {c : Collection Nat} {m n : Nat} (hm : m < c.size) (hn : n < c.size) :
    (ofCollection c).groupOf m = (ofCollection c).groupOf n ↔ ∀ j, Cores c m j ↔ Cores c n j := by
  constructor
  · intro h j
    rw [← mem_core_iff, core_of_groupOf hm hn h, mem_core_iff]
  · intro h
    obtain ⟨-, hgroups⟩ := firstStates_spec c c.size
    obtain ⟨i, hi, hcm⟩ := hgroups m hm
    obtain ⟨j, hj, hcn⟩ := hgroups n hn
    rw [Collection.core_eq_of_cores h] at hcm
    rw [groupOf, groupOf, ofCollection_eq, hi, hj, Numbering.get?_inj hcm hcn]

lemma groupOf_lt {c : Collection Nat} {m : Nat} (hm : m < c.size) :
    (ofCollection c).groupOf m < (ofCollection c).size := by
  obtain ⟨-, hgroups⟩ := firstStates_spec c c.size
  obtain ⟨i, hi, hcm⟩ := hgroups m hm
  rw [groupOf, ofCollection_eq, hi, Option.getD_some]
  exact Numbering.lt_size_of_get? hcm

/-- The core of a group is that of one of its states. -/
lemma exists_state_of_get? {c : Collection Nat} {k n : Nat} {core : List (Item Unit)}
    (h : (firstStates c k).cores.get? n = some core) : ∃ state < k, c.core state = core := by
  induction k with
  | zero => cases Numbering.lt_size_of_get? h
  | succ k ih =>
    rw [firstStates_succ] at h
    rcases Numbering.get?_insert_iff.mp h with hold | ⟨-, rfl⟩
    · obtain ⟨state, hlt, he⟩ := ih hold
      exact ⟨state, by omega, he⟩
    · exact ⟨k, by omega, rfl⟩

end Merging

/-! ### Targets of the states of a group -/

section Targets

variable {g : Grammar} {production : Nat} {c : Collection Nat}

/-- Whether an item implies anything depends on its core alone. -/
lemma exists_lookaheadBehind_of_core {i j : Item Nat} (h : i.core = j.core)
    (hi : ∃ l, l ∈ lookaheadsBehind g g.firstFollow i) :
    ∃ l, l ∈ lookaheadsBehind g g.firstFollow j := by
  have hrest : i.rest g = j.rest g := by
    change i.core.rest g = j.core.rest g
    rw [h]
  obtain ⟨l, hl⟩ := hi
  unfold lookaheadsBehind at hl ⊢
  dsimp only at hl ⊢
  rw [hrest] at hl
  split
  · exact ⟨j.lookahead, IdSet.mem_insert.mpr (.inl rfl)⟩
  · next hstops =>
    rw [if_neg hstops] at hl
    exact ⟨l, hl⟩

/-- Items of one core reach items of the same cores. -/
lemma exists_reaches_of_core {i i' j : Item Nat} (h : i.core = i'.core)
    (hr : canonical.Reaches g g.firstFollow i j) :
    ∃ j', canonical.Reaches g g.firstFollow i' j' ∧ j'.core = j.core := by
  induction hr with
  | refl => exact ⟨i', .refl, h.symm⟩
  | @tail j k _ hk ih =>
    obtain ⟨j', hr', hcore⟩ := ih
    obtain ⟨a, ha, hp, hdot, hl⟩ := mem_implied_iff.mp hk
    obtain ⟨l, hl'⟩ := exists_lookaheadBehind_of_core hcore.symm ⟨_, hl⟩
    have ha' : j'.next? g = some (.nonTerminal a) := by
      rw [← Item.next?_core, hcore]
      exact ha
    refine ⟨⟨k.production, 0, l⟩, hr'.tail (mem_implied_iff.mpr ⟨a, ha', hp, rfl, hl'⟩), ?_⟩
    rw [Item.core, Item.core, hdot]

lemma cores_target_of_cores (h : c.Exact .canonical g g.firstFollow production) {m m' n n' : Nat}
    {x : Symbol} (hcores : ∀ j, Cores c m j → Cores c m' j) (hn : (c.row m).get? x = some n)
    (hn' : (c.row m').get? x = some n') {j : Item Unit} (hj : Cores c n j) : Cores c n' j := by
  obtain ⟨j, hj, rfl⟩ := hj
  obtain ⟨i, hi, hx, hr⟩ := ((h.goto m x n hn).2 j).mp hj
  obtain ⟨i', hi', hcore⟩ := hcores i.core ⟨i, hi, rfl⟩
  have hadv : i.advance.core = i'.advance.core := by
    rw [Item.core_advance, Item.core_advance, hcore]
  obtain ⟨j', hr', hcore'⟩ := exists_reaches_of_core hadv hr
  have hx' : i'.next? g = some x := by
    rw [← Item.next?_core, hcore]
    exact hx
  exact ⟨j', ((h.goto m' x n' hn').2 j').mpr ⟨i', hi', hx', hr'⟩, hcore'⟩

/-- **From states with the same cores a symbol leads to states with the same cores.** -/
theorem cores_of_target (h : c.Exact .canonical g g.firstFollow production) {m m' n n' : Nat}
    {x : Symbol} (hcores : ∀ j, Cores c m j ↔ Cores c m' j) (hn : (c.row m).get? x = some n)
    (hn' : (c.row m').get? x = some n') : ∀ j, Cores c n j ↔ Cores c n' j := fun _ =>
  ⟨cores_target_of_cores h (fun j => (hcores j).mp) hn hn',
    cores_target_of_cores h (fun j => (hcores j).mpr) hn' hn⟩

lemma lt_size_of_row {L : Type} [DecidableEq L] [Hashable L] {d : Discipline L} {s : FirstFollow}
    {c : Collection L} (h : c.Exact d g s production) {m n : Nat} {x : Symbol}
    (hn : (c.row m).get? x = some n) : m < c.size := by
  obtain ⟨i, hi, -⟩ := (h.keys m x).mp ⟨n, hn⟩
  exact Collection.lt_size_of_mem_itemsOf hi

/-- The states of a group have their targets in one group. -/
lemma Merging.groupOf_target (h : c.Exact .canonical g g.firstFollow production)
    {m m' n n' : Nat} {x : Symbol}
    (hgroup : (ofCollection c).groupOf m = (ofCollection c).groupOf m')
    (hn : (c.row m).get? x = some n) (hn' : (c.row m').get? x = some n') :
    (ofCollection c).groupOf n = (ofCollection c).groupOf n' := by
  have hcores := (groupOf_eq_iff (lt_size_of_row h hn) (lt_size_of_row h hn')).mp hgroup
  exact (groupOf_eq_iff (h.goto m x n hn).1 (h.goto m' x n' hn').1).mpr
    (cores_of_target h hcores hn hn')

end Targets

/-! ### Refused merged tables -/

namespace Merging

variable {g : Grammar} {production : Nat} {c : Collection Nat}

/-- Two states of a group with different reductions before a terminal, and the error that tells
about them. -/
inductive Clash (g : Grammar) (c : Collection Nat) : TableError → Prop
  | reduceReduce {m n : Nat} {i j : Item Nat} {x : Terminal} {p q : Production}
      (hgroup : (ofCollection c).groupOf m = (ofCollection c).groupOf n) (hi : i ∈ c.itemsOf m)
      (hj : j ∈ c.itemsOf n) (hi' : i.next? g = none) (hj' : j.next? g = none)
      (hne : i.production ≠ j.production) (hl : i.lookahead = j.lookahead)
      (hterm : g.terminal? j.lookahead = some x) (hp : g.production? i.production = some p)
      (hq : g.production? j.production = some q) :
      Clash g c (.reduceReduceConflict ((ofCollection c).groupOf n)
        ((ofCollection c).itemTexts g c ((ofCollection c).groupOf n)) x.display p.display q.display)

/-- What is kept while a table is merged. -/
structure Kept (c : Collection Nat) (t : ParsingTable) (b : TableBuilder) : Prop where
  justified : (ofCollection c).Justified t b
  regular : b.Regular (ofCollection c).size

variable {b₀ : TableBuilder} {b : TableBuilder}

lemma regular_entry (hb₀ : b₀.Regular c.size) {state : Nat} {row : TableRow} {x : Terminal}
    {a : Action} (hrow : (b₀.finish 0).rows[state]? = some row)
    (hx : (x, a) ∈ row.actions.entries) : a ≠ .error := by
  rintro rfl
  exact hb₀.entries state row hrow x (OrderedMap.mem_entries_iff.mp hx)

lemma lt_size_of_finish (hb₀ : b₀.Regular c.size) {state : Nat} {row : TableRow}
    (hrow : (b₀.finish 0).rows[state]? = some row) : state < c.size := by
  rw [← hb₀.size]
  exact (Array.getElem?_eq_some_iff.mp hrow).1

/-- An item with the same core in another state of a group. -/
lemma exists_core_mem {m n : Nat} (hm : m < c.size) (hn : n < c.size)
    (hgroup : (ofCollection c).groupOf m = (ofCollection c).groupOf n) {i : Item Nat}
    (hi : i ∈ c.itemsOf m) : ∃ i' ∈ c.itemsOf n, i'.core = i.core :=
  ((groupOf_eq_iff hm hn).mp hgroup i.core).mp ⟨i, hi, rfl⟩

/-- A shift in one state of a group and a reduction in another one are not before the same
terminal. -/
lemma not_shift_reduce (h : c.Exact .canonical g g.firstFollow production)
    (hc : c.Consistent .canonical g g.firstFollow) {m n target : Nat} {j : Item Nat} {x : Terminal}
    (hgroup : (ofCollection c).groupOf m = (ofCollection c).groupOf n)
    (hrow : (c.row m).get? (.terminal x) = some target) (hj : j ∈ c.itemsOf n)
    (hcomplete : j.next? g = none) : g.terminal? j.lookahead ≠ some x := by
  obtain ⟨i, hi, hx⟩ := (h.keys m _).mp ⟨target, hrow⟩
  obtain ⟨i', hi', hcore⟩ := exists_core_mem (Collection.lt_size_of_mem_itemsOf hi)
    (Collection.lt_size_of_mem_itemsOf hj) hgroup hi
  have hx' : i'.next? g = some (.terminal x) := by
    rw [← Item.next?_core, hcore]
    exact hx
  exact hc.shift hi' hj hx' hcomplete (List.mem_singleton_self _)

/-- An action that cannot be entered for a group is a reduction in conflict with another one. -/
lemma clash_of_setAction (h : c.Exact .canonical g g.firstFollow production)
    (hc : c.Consistent .canonical g g.firstFollow)
    (hgood : c.Good .canonical g g.firstFollow production b₀) (hb₀ : b₀.Regular c.size)
    (hb : Kept c (b₀.finish 0) b) {state : Nat} {row : TableRow} {x : Terminal} {a : Action}
    {e : TableError} (hrow : (b₀.finish 0).rows[state]? = some row)
    (hx : (x, a) ∈ row.actions.entries)
    (he : b.setAction ((ofCollection c).groupOf state) x ((ofCollection c).action a)
      (fun _ => (ofCollection c).itemTexts g c ((ofCollection c).groupOf state)) = .error e) :
    Clash g c e := by
  have hlt := groupOf_lt (lt_size_of_finish hb₀ hrow)
  obtain ⟨hne, hdiff, rfl⟩ := TableBuilder.conflict_of_setAction (hb.regular.size.symm ▸ hlt) he
  have ha : b₀.action state x = a := ParsingTable.action_of_mem_entries hrow hx
  obtain ⟨state', hgroup, -, hold⟩ := hb.justified.action _ x hne
  have hold' : b.action ((ofCollection c).groupOf state) x =
    (ofCollection c).action (b₀.action state' x) := hold
  rw [hold'] at hne hdiff ⊢
  have hrules : b.rules = b₀.rules := hb.justified.rules
  cases hnew : a with
  | error => exact absurd hnew (regular_entry hb₀ hrow hx)
  | shift target =>
    rw [hnew] at ha hdiff
    have hshift := hgood.justified.shift state x target ha
    cases hact : b₀.action state' x with
    | error => exact absurd (by rw [hact]; rfl) hne
    | shift target' =>
      have hshift' := hgood.justified.shift state' x target' hact
      rw [hact] at hdiff
      exact absurd (congrArg Action.shift (groupOf_target h hgroup hshift' hshift)) hdiff
    | reduce slot' =>
      obtain ⟨j, hj, hcomplete, -, n, hn, hterm⟩ := hgood.justified.reduce state' x slot' hact
      obtain rfl : n = j.lookahead := List.mem_singleton.mp hn
      exact absurd hterm (not_shift_reduce h hc hgroup.symm hshift hj hcomplete)
  | reduce slot =>
    rw [hnew] at ha hdiff
    obtain ⟨j, hj, hj', hslot, n, hn, hterm⟩ := hgood.justified.reduce state x slot ha
    obtain rfl : n = j.lookahead := List.mem_singleton.mp hn
    obtain ⟨q, hq, hrule⟩ := hgood.slots.rule _ slot hslot
    cases hact : b₀.action state' x with
    | error => exact absurd (by rw [hact]; rfl) hne
    | shift target' =>
      have hshift' := hgood.justified.shift state' x target' hact
      exact absurd hterm (not_shift_reduce h hc hgroup hshift' hj hj')
    | reduce slot' =>
      obtain ⟨i, hi, hi', hslot', n, hn, hterm'⟩ := hgood.justified.reduce state' x slot' hact
      obtain rfl : n = i.lookahead := List.mem_singleton.mp hn
      obtain ⟨p, hp, hrule'⟩ := hgood.slots.rule _ slot' hslot'
      rw [hact] at hdiff
      simp only [Merging.action, TableBuilder.conflict, hrules, hrule, hrule']
      refine .reduceReduce hgroup hi hj hi' hj' ?_ (Grammar.terminal?_inj hterm' hterm) hterm hp hq
      intro heq
      rw [heq, hslot] at hslot'
      cases hslot'
      exact hdiff rfl

/-- The state after a reduction can be entered for a group. -/
lemma setGoto_ne_error (h : c.Exact .canonical g g.firstFollow production)
    (hgood : c.Good .canonical g g.firstFollow production b₀) (hb₀ : b₀.Regular c.size)
    (hb : Kept c (b₀.finish 0) b) {state n : Nat} {row : TableRow} {a : String} {e : TableError}
    (hrow : (b₀.finish 0).rows[state]? = some row) (hn : (a, n) ∈ row.gotos.entries) :
    b.setGoto ((ofCollection c).groupOf state) a ((ofCollection c).groupOf n) ≠ .error e := by
  intro he
  have hlt := groupOf_lt (lt_size_of_finish hb₀ hrow)
  obtain ⟨old, hold, hne⟩ := TableBuilder.conflict_of_setGoto (hb.regular.size.symm ▸ hlt) he
  obtain ⟨state', n', hgroup, hn', rfl⟩ := hb.justified.goto _ a old hold
  have hgoto := hgood.justified.goto state a n (ParsingTable.goto?_of_mem_entries hrow hn)
  have hgoto' := hgood.justified.goto state' a n' hn'
  exact hne (groupOf_target h hgroup hgoto' hgoto)

/-- What is kept while the actions of a row are merged. -/
lemma kept_setAction (hb₀ : b₀.Regular c.size) {b' : TableBuilder} (hb : Kept c (b₀.finish 0) b)
    {state : Nat} {row : TableRow} {x : Terminal} {a : Action} {items : Unit → List String}
    (hrow : (b₀.finish 0).rows[state]? = some row) (hx : (x, a) ∈ row.actions.entries)
    (hset : b.setAction ((ofCollection c).groupOf state) x ((ofCollection c).action a) items =
      .ok b') : Kept c (b₀.finish 0) b' where
  justified := justified_setAction hb.justified hrow hx hset
  regular := hb.regular.setAction (action_ne_error.mpr (regular_entry hb₀ hrow hx)) hset

lemma kept_setGoto {b' : TableBuilder} (hb : Kept c (b₀.finish 0) b) {state n : Nat}
    {row : TableRow} {a : String} (hrow : (b₀.finish 0).rows[state]? = some row)
    (hn : (a, n) ∈ row.gotos.entries)
    (hset : b.setGoto ((ofCollection c).groupOf state) a ((ofCollection c).groupOf n) = .ok b') :
    Kept c (b₀.finish 0) b' where
  justified := justified_setGoto hb.justified hrow hn hset
  regular := hb.regular.setGoto hset

/-- What is kept while rows are merged. -/
lemma kept_enterRow (hb₀ : b₀.Regular c.size) {b' : TableBuilder} (hb : Kept c (b₀.finish 0) b)
    {state : Nat} {row : TableRow} (hrow : (b₀.finish 0).rows[state]? = some row)
    (h : (ofCollection c).enterRow g c b (row, state) = .ok b') : Kept c (b₀.finish 0) b' := by
  unfold enterRow at h
  obtain ⟨b₁, hfold, h⟩ := bind_eq_ok_iff.mp h
  have hb₁ := foldlM_invariant (P := Kept c (b₀.finish 0)) hb
    (fun _ _ _ hx hb hset => kept_setAction hb₀ hb hrow hx hset) hfold
  exact foldlM_invariant (P := Kept c (b₀.finish 0)) hb₁
    (fun _ _ _ hn hb hset => kept_setGoto hb hrow hn hset) h

/-- A row that cannot be entered has a reduction in conflict with one of another row. -/
lemma clash_of_enterRow (h : c.Exact .canonical g g.firstFollow production)
    (hc : c.Consistent .canonical g g.firstFollow)
    (hgood : c.Good .canonical g g.firstFollow production b₀) (hb₀ : b₀.Regular c.size)
    (hb : Kept c (b₀.finish 0) b) {state : Nat} {row : TableRow} {e : TableError}
    (hrow : (b₀.finish 0).rows[state]? = some row)
    (he : (ofCollection c).enterRow g c b (row, state) = .error e) : Clash g c e := by
  unfold enterRow at he
  dsimp only at he
  cases hactions : row.actions.entries.foldlM (fun b e =>
      b.setAction ((ofCollection c).groupOf state) e.1 ((ofCollection c).action e.2) fun _ =>
        (ofCollection c).itemTexts g c ((ofCollection c).groupOf state)) b with
  | error e' =>
    rw [hactions] at he
    cases he
    obtain ⟨b₁, ⟨x, a⟩, hx, hb₁, hset⟩ := foldlM_error (P := Kept c (b₀.finish 0)) hb
      (fun _ _ _ hx hb hset => kept_setAction hb₀ hb hrow hx hset) hactions
    exact clash_of_setAction h hc hgood hb₀ hb₁ hrow hx hset
  | ok b₁ =>
    rw [hactions] at he
    have hb₁ := foldlM_invariant (P := Kept c (b₀.finish 0)) hb
      (fun _ _ _ hx hb hset => kept_setAction hb₀ hb hrow hx hset) hactions
    obtain ⟨b₂, ⟨a, n⟩, hn, hb₂, hset⟩ := foldlM_error (P := Kept c (b₀.finish 0)) hb₁
      (fun _ _ _ hn hb hset => kept_setGoto hb hrow hn hset) he
    exact absurd hset (setGoto_ne_error h hgood hb₀ hb₂ hrow hn)

/-- Before anything is merged, nothing is entered. -/
lemma kept_withRules (c : Collection Nat) (t : ParsingTable) :
    Kept c t (.withRules (ofCollection c).size t.rules) := by
  obtain ⟨hact, hgoto⟩ := TableBuilder.withRules_entries (ofCollection c).size t.rules
  refine ⟨⟨rfl, ?_, ?_⟩, TableBuilder.regular_withRules _ _⟩
  · intro group x hx
    exact absurd (hact group x) hx
  · intro group a n hn
    rw [hgoto] at hn
    cases hn

lemma getElem?_of_mem_zipIdx {t : ParsingTable} {r : TableRow × Nat}
    (hr : r ∈ t.rows.toList.zipIdx) : t.rows[r.2]? = some r.1 := by
  rw [← Array.getElem?_toList]
  exact List.mem_zipIdx_iff_getElem?.mp hr

/-- The finished merged table has a row for each group. -/
lemma size_of_table (hb₀ : b₀.Regular c.size) {t : ParsingTable}
    (ht : (ofCollection c).table g c (b₀.finish 0) = .ok t) : t.size = (ofCollection c).size := by
  unfold table at ht
  obtain ⟨b, hfold, ht⟩ := bind_eq_ok_iff.mp ht
  cases ht
  exact (foldlM_invariant (P := Kept c (b₀.finish 0)) (kept_withRules _ _)
    (fun _ _ _ hr hb hset => kept_enterRow hb₀ hb (getElem?_of_mem_zipIdx hr) hset)
    hfold).regular.size

/-- **A merged table is refused only for two reductions in states of one group.** -/
theorem clash_of_table (h : c.Exact .canonical g g.firstFollow production)
    (hc : c.Consistent .canonical g g.firstFollow) {t : ParsingTable}
    (ht : c.table .canonical g g.firstFollow production = .ok t) {e : TableError}
    (he : (ofCollection c).table g c t = .error e) : Clash g c e := by
  obtain ⟨b₀, rfl, hgood, hb₀⟩ := Collection.regular_of_table ht
  unfold table at he
  cases hfold : (b₀.finish 0).rows.toList.zipIdx.foldlM ((ofCollection c).enterRow g c)
      (.withRules (ofCollection c).size (b₀.finish 0).rules) with
  | ok b =>
    rw [hfold] at he
    cases he
  | error e' =>
    rw [hfold] at he
    cases he
    obtain ⟨b, ⟨row, state⟩, hr, hb, hrow⟩ := foldlM_error (P := Kept c (b₀.finish 0))
      (kept_withRules _ _)
      (fun _ _ r hr hb hset => kept_enterRow hb₀ hb (getElem?_of_mem_zipIdx hr) hset) hfold
    exact clash_of_enterRow h hc hgood hb₀ hb (getElem?_of_mem_zipIdx hr) hrow

end Merging

end Coscript
