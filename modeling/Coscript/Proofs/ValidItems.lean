import Coscript.Proofs.Conflicts

/-!
# Valid items

The items of a state are those that are valid for the symbols that lead to it. So a fact about a
state of the automaton is a fact about the grammar: which items are under way when some symbols have
been pushed. What an item says about the pushed symbols is that they end with the part of its body
before the dot, and that its production was begun before them.

* `Collection.Exact.mem_itemsOf_iff`: the items of the state that symbols lead to;
* `Discipline.Valid.begun`, `Discipline.Valid.moved`: from a dot to the beginning of a body and back;
* `Grammar.Deterministic`: at most one production is reduced before a terminal, and then the terminal
  is not shifted, because the canonical automaton has no conflicts.
-/

namespace Coscript

open Discipline

namespace Collection

variable {L : Type} [DecidableEq L] [Hashable L]
variable {d : Discipline L} {g : Grammar} {s : FirstFollow} {production : Nat} {c : Collection L}

/-- The state that symbols lead to, the last one pushed first. -/
def reach? (c : Collection L) : List Symbol → Option Nat
  | [] => some 0
  | x :: σ => (c.reach? σ).bind fun m => (c.row m).get? x

/-- **The state that symbols lead to holds the items that are valid for them.** -/
theorem Exact.mem_itemsOf_iff (h : c.Exact d g s production) {σ : List Symbol} {m : Nat}
    (hm : c.reach? σ = some m) {i : Item L} : i ∈ c.itemsOf m ↔ d.Valid g s production σ i := by
  induction σ generalizing m i with
  | nil =>
    cases hm
    rw [h.start, valid_nil_iff]
  | cons x σ ih =>
    obtain ⟨k, hk, hrow⟩ := Option.bind_eq_some_iff.mp hm
    rw [(h.goto k x m hrow).2, valid_cons_iff]
    have hitems : (· ∈ c.itemsOf k) = d.Valid g s production σ := funext fun _ => propext (ih hk)
    rw [hitems]

/-- Symbols with a valid item lead to a state. -/
theorem Exact.exists_reach (h : c.Exact d g s production) {σ : List Symbol} {i : Item L}
    (hi : d.Valid g s production σ i) : ∃ m, c.reach? σ = some m := by
  induction hi with
  | start => exact ⟨0, rfl⟩
  | implied _ _ ih => exact ih
  | @advance σ i x hi hx ih =>
    obtain ⟨m, hm⟩ := ih
    obtain ⟨n, hn⟩ := (h.keys m x).mpr ⟨i, (h.mem_itemsOf_iff hm).mpr hi, hx⟩
    exact ⟨n, by rw [reach?, hm, Option.bind_some, hn]⟩

lemma Exact.reach?_lt (h : c.Exact d g s production) {σ : List Symbol} {m : Nat}
    (hm : c.reach? σ = some m) : m < c.size := by
  cases σ with
  | nil =>
    cases hm
    exact h.pos
  | cons x σ =>
    obtain ⟨k, -, hrow⟩ := Option.bind_eq_some_iff.mp hm
    exact (h.goto k x m hrow).1

/-- One symbol more leads along the row of the state. -/
lemma reach?_cons {σ : List Symbol} {m n : Nat} {x : Symbol} (hm : c.reach? σ = some m)
    (hn : (c.row m).get? x = some n) : c.reach? (x :: σ) = some n := by
  rw [reach?, hm, Option.bind_some, hn]

end Collection

/-! ### Dots -/

namespace Discipline

variable {L : Type} {d : Discipline L} {g : Grammar} {s : FirstFollow} {production : Nat}

/-- A property of items that are under way holds of all valid items. -/
lemma Inductive.valid {Q : Item L → Prop} (h : d.Inductive g s production Q) {σ : List Symbol}
    {i : Item L} (hi : d.Valid g s production σ i) : Q i := by
  induction hi with
  | start => exact h.start
  | implied _ hj ih => exact h.implied _ _ ih hj
  | advance _ hx ih => exact h.advance _ _ ih hx

/-- Items that are valid for some symbols are under way. -/
lemma inductive_valid (production : Nat) :
    d.Inductive g s production fun i => ∃ σ, d.Valid g s production σ i where
  start := ⟨[], .start⟩
  implied := fun _ _ ⟨σ, hi⟩ hj => ⟨σ, hi.implied hj⟩
  advance := fun _ x ⟨σ, hi⟩ hx => ⟨x :: σ, hi.advance hx⟩

/-- The pushed symbols end with those before the dot, and the production was begun before them. -/
theorem Valid.begun {σ : List Symbol} {i : Item L} (h : d.Valid g s production σ i)
    {p : Production} (hp : g.production? i.production = some p) :
    ∃ τ, σ = (p.body.take i.dot).reverse ++ τ ∧
      d.Valid g s production τ ⟨i.production, 0, i.lookahead⟩ := by
  induction h with
  | start => exact ⟨[], rfl, .start⟩
  | @implied σ i j h hj ih =>
    obtain ⟨a, -, -, hdot, -⟩ := mem_implied_iff.mp hj
    refine ⟨σ, by rw [hdot, List.take_zero]; rfl, ?_⟩
    rw [← hdot]
    exact h.implied hj
  | @advance σ i x h hx ih =>
    obtain ⟨τ, rfl, hτ⟩ := ih hp
    obtain ⟨q, hq, hget⟩ := Item.exists_production_of_next? hx
    cases (show g.production? i.production = some p from hp).symm.trans hq
    obtain ⟨hlt, hget⟩ := List.getElem?_eq_some_iff.mp hget
    refine ⟨τ, ?_, hτ⟩
    rw [show i.advance.dot = i.dot + 1 from rfl, List.take_succ_eq_append_getElem hlt, hget,
      List.reverse_concat, List.cons_append]

/-- A dot moves over pushed symbols. -/
theorem Valid.moved {τ : List Symbol} {k : Nat} {l : L} {p : Production}
    (h : d.Valid g s production τ ⟨k, 0, l⟩) (hp : g.production? k = some p) {n : Nat}
    (hn : n ≤ p.body.length) :
    d.Valid g s production ((p.body.take n).reverse ++ τ) ⟨k, n, l⟩ := by
  induction n with
  | zero => exact h
  | succ n ih =>
    have hnext : Item.next? (⟨k, n, l⟩ : Item L) g = some p.body[n] := by
      rw [Item.next?, hp, Option.bind_some, List.getElem?_eq_getElem hn]
    rw [List.take_succ_eq_append_getElem hn, List.reverse_concat, List.cons_append]
    exact (ih (by omega)).advance hnext

end Discipline

namespace Item

variable {L : Type} {g : Grammar}

/-- The dot of a complete item is behind the body. -/
lemma next?_eq_none_iff {i : Item L} {p : Production} (hp : g.production? i.production = some p) :
    i.next? g = none ↔ p.body.length ≤ i.dot := by
  rw [next?, hp, Option.bind_some, List.getElem?_eq_none_iff]

end Item

/-! ### One terminal of lookahead -/

namespace Grammar

variable {g : Grammar} {production : Nat}

/-- The items with one terminal of lookahead that are under way when some symbols have been
pushed. -/
abbrev Valid (g : Grammar) (production : Nat) : List Symbol → Item Nat → Prop :=
  canonical.Valid g g.firstFollow production

/-- The dot of a valid item is in the body or behind it, and its lookahead is numbered. -/
lemma Valid.proper (hp : production < g.productions.size) {σ : List Symbol} {i : Item Nat}
    (h : g.Valid production σ i) :
    (∃ p, g.production? i.production = some p ∧ i.dot ≤ p.body.length) ∧
      ∃ x, g.terminal? i.lookahead = some x := by
  have hproper := ((LookaheadBound.canonical g).proper_inductive hp).valid h
  exact ⟨hproper.1, hproper.lookahead⟩

/-- A valid item that is complete stands behind the body of its production. -/
lemma Valid.of_complete (hp : production < g.productions.size) {σ : List Symbol} {i : Item Nat}
    (h : g.Valid production σ i) (hi : i.next? g = none) :
    ∃ p, g.production? i.production = some p ∧ i = ⟨i.production, p.body.length, i.lookahead⟩ := by
  obtain ⟨⟨p, hprod, hdot⟩, -⟩ := h.proper hp
  have hle := (Item.next?_eq_none_iff hprod).mp hi
  refine ⟨p, hprod, ?_⟩
  obtain ⟨k, dot, l⟩ := i
  obtain rfl : dot = p.body.length := Nat.le_antisymm hdot hle
  rfl

/-- Before a terminal at most one production is reduced, and then the terminal is not shifted. -/
structure Deterministic (g : Grammar) (production : Nat) : Prop where
  reduce : ∀ {σ i j}, g.Valid production σ i → g.Valid production σ j → i.next? g = none →
    j.next? g = none → i.lookahead = j.lookahead → i.production = j.production
  shift : ∀ {σ i j x}, g.Valid production σ i → g.Valid production σ j →
    i.next? g = some (.terminal x) → j.next? g = none → g.terminal? j.lookahead ≠ some x

/-- **A grammar whose canonical automaton has no conflicts is deterministic.** -/
theorem deterministic_of_consistent (hp : production < g.productions.size) {c : Collection Nat}
    (h : c.Exact canonical g g.firstFollow production)
    (hc : c.Consistent canonical g g.firstFollow) : g.Deterministic production where
  reduce := by
    intro σ i j hi hj hni hnj hl
    obtain ⟨m, hm⟩ := h.exists_reach hi
    obtain ⟨-, x, hx⟩ := Valid.proper hp hj
    exact hc.reduce ((h.mem_itemsOf_iff hm).mpr hi) ((h.mem_itemsOf_iff hm).mpr hj) hni hnj
      (List.mem_singleton.mpr hl.symm) (List.mem_singleton_self _) hx
  shift := by
    intro σ i j x hi hj hx hnj
    obtain ⟨m, hm⟩ := h.exists_reach hi
    exact hc.shift ((h.mem_itemsOf_iff hm).mpr hi) ((h.mem_itemsOf_iff hm).mpr hj) hx hnj
      (List.mem_singleton_self _)

end Grammar

end Coscript
