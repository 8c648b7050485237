import Coscript.Proofs.Grounding

/-!
# What may stand behind a symbol

The items of a state that is entered over a symbol have moved over this symbol, or they begin a
production behind it. So what a state does depends on the symbol before it, as far as only few
productions may be begun there.

* `Grammar.Opens`: the names whose productions may be begun behind a symbol;
* `ParsingTable.Entered.cases`: the items of a state that is entered over a symbol;
* `ParsingTable.Covers.ends_along`: if the start symbol is in no body, a run along a tree ends with
  this tree.
-/

namespace Coscript

variable {g : Grammar} {production : Nat} {t : ParsingTable}
variable {I : Nat → Item Nat → Prop} {J : Nat → Item Unit → Prop}

/-! ### States and the symbols before them -/

/-- The names whose productions may be begun behind a symbol, or at the start of the input. -/
inductive Grammar.Opens (g : Grammar) (production : Nat) : Option Symbol → String → Prop
  | start {p : Production} (hp : g.production? production = some p) :
    Opens g production none p.name
  | behind {i k : Nat} {p : Production} {x : Symbol} {a : String} (hp : g.production? i = some p)
    (hx : p.body[k]? = some x) (ha : p.body[k + 1]? = some (.nonTerminal a)) :
    Opens g production (some x) a
  | within {before : Option Symbol} {i : Nat} {p : Production} {a : String}
    (h : Opens g production before p.name) (hp : g.production? i = some p)
    (ha : p.body[0]? = some (.nonTerminal a)) : Opens g production before a

/-- The items that an item reaches are itself and such as begin a production. -/
lemma Item.reaches_cases {i j : Item Unit} (before : Option Symbol)
    (hi : ∀ a, i.next? g = some (.nonTerminal a) → g.Opens production before a)
    (h : Discipline.plain.Reaches g g.firstFollow i j) :
    j = i ∨ j.dot = 0 ∧ ∃ p, g.production? j.production = some p ∧
      g.Opens production before p.name := by
  induction h with
  | refl => exact .inl rfl
  | @tail j k _ hk ih =>
    obtain ⟨a, ha, hp, hdot, -⟩ := Discipline.mem_implied_iff.mp hk
    obtain ⟨q, hq, rfl⟩ := Grammar.mem_productionsOf_iff.mp hp
    refine .inr ⟨hdot, q, hq, ?_⟩
    rcases ih with rfl | ⟨hzero, p, hp, hopens⟩
    · exact hi _ ha
    · obtain ⟨p', hp', hbody⟩ := Item.exists_production_of_next? ha
      cases hp.symm.trans hp'
      rw [hzero] at hbody
      exact .within hopens hp hbody

/-- An item that is complete behind a symbol has this symbol at the end of its body. -/
lemma Item.getLast?_of_advance {i : Item Unit} {p : Production} {x : Symbol}
    (hp : g.production? i.production = some p) (hx : i.next? g = some x)
    (hnext : i.advance.next? g = none) : p.body.getLast? = some x := by
  rw [next?, hp, Option.bind_some] at hx
  obtain ⟨hlt, -⟩ := List.getElem?_eq_some_iff.mp hx
  have hle : p.body.length ≤ i.dot + 1 := by
    rw [next?, show g.production? i.advance.production = some p from hp, Option.bind_some] at hnext
    exact List.getElem?_eq_none_iff.mp hnext
  rw [List.getLast?_eq_getElem?, ← hx]
  congr 1
  omega

/-- An item that is complete where it begins has an empty body. -/
lemma Item.body_eq_nil {i : Item Unit} {p : Production}
    (hp : g.production? i.production = some p) (hzero : i.dot = 0) (hnext : i.next? g = none) :
    p.body = [] := by
  rw [next?, hp, Option.bind_some, hzero, List.getElem?_eq_none_iff] at hnext
  exact List.length_eq_zero_iff.mp (Nat.le_zero.mp hnext)

/-- The items of the target of a transition have moved over its symbol, or begin behind it. -/
lemma Targets.cases (production : Nat) {m n : Nat} {x : Symbol} (h : Targets g J m x n)
    {j : Item Unit} (hj : J n j) :
    (∃ i, J m i ∧ i.next? g = some x ∧ j = i.advance) ∨
      j.dot = 0 ∧ ∃ p, g.production? j.production = some p ∧
        g.Opens production (some x) p.name := by
  obtain ⟨i, hi, hx, hreaches⟩ := h.only j hj
  obtain ⟨p, hp, hbody⟩ := Item.exists_production_of_next? hx
  refine (Item.reaches_cases (some x) (fun a ha => ?_) hreaches).imp_left fun he => ⟨i, hi, hx, he⟩
  obtain ⟨p', hp', ha⟩ := Item.exists_production_of_next? ha
  cases hp.symm.trans hp'
  exact .behind hp hbody ha

namespace ParsingTable

/-- A state that is entered over a symbol, or the one before the input. -/
def Entered (t : ParsingTable) (g : Grammar) (J : Nat → Item Unit → Prop) :
    Option Symbol → Nat → Prop
  | none, n => n = t.initial
  | some x, n => ∃ m, Targets g J m x n

/-- A table leads to a state that is entered over the symbol. -/
lemma Grounded.targets (h : t.Grounded g production J) {m n : Nat} {x : Symbol}
    (hx : t.Leads m x n) : Targets g J m x n := by
  cases x with
  | terminal y => exact h.shift m y n hx
  | nonTerminal a => exact h.goto m a n hx

/-- **The items of a state that is entered over a symbol** have moved over it, or begin behind
it. -/
theorem Entered.cases {before : Option Symbol} {n : Nat} (hn : t.Entered g J before n)
    (h : t.Grounded g production J) {q : Production} (hq : g.production? production = some q)
    {j : Item Unit} (hj : J n j) :
    (∃ (i : Item Unit) (x : Symbol), before = some x ∧ i.next? g = some x ∧ j = i.advance) ∨
      j.dot = 0 ∧ ∃ p, g.production? j.production = some p ∧ g.Opens production before p.name := by
  cases before with
  | some x =>
    obtain ⟨m, hm⟩ := hn
    exact (hm.cases production hj).imp_left fun ⟨i, _, hx, he⟩ => ⟨i, x, rfl, hx, he⟩
  | none =>
    obtain rfl : n = t.initial := hn
    refine .inr ?_
    refine (Item.reaches_cases none (fun a ha => ?_) (h.only j hj)).elim ?_ id
    · obtain ⟨p, hp, ha⟩ := Item.exists_production_of_next? ha
      exact .within (.start hp) hp ha
    · rintro rfl
      exact ⟨rfl, q, hq, .start hq⟩

/-! ### Ends of runs -/

open Configuration

/-- **A run along a tree ends with this tree**, if the start symbol is in no body. -/
theorem Covers.ends_along (h : t.Covers g production I) (hground : t.Grounded g production J)
    (hp : g.startProduction = .ok production)
    (hstart : ∀ i p, g.production? i = some p → .nonTerminal g.start ∉ p.body) {T : Tree}
    (hT : t.Follows g t.initial (.nonTerminal g.start) T []) :
    EndsAfter t (T.size - 1) (.start t T.word) (.ok T) := by
  obtain ⟨q, hq, hname, honly⟩ := Grammar.startProduction_spec hp
  obtain ⟨k, tree, hend, hle, hsame⟩ := h.accepts_along hp hT
  suffices hsize : k + 1 = T.size by
    obtain rfl := hsame hsize
    rwa [← hsize, Nat.add_sub_cancel]
  by_contra hne
  -- The parser has accepted where it could have moved, to a state behind the start symbol.
  obtain ⟨c, hc, hstep⟩ := hend.exists_moves
  obtain ⟨c', hc'⟩ : ∃ c', c.move? t = some c' := by
    obtain ⟨i, p, ts, hi, hstart, rfl, hts⟩ := hT.exists_node
    obtain rfl := honly i p hi hstart
    obtain ⟨n, last, frames, -, -, hmoves⟩ := h.moves_start_along hi hts
    obtain ⟨m, hm⟩ : ∃ m, Tree.sizeAll ts = k + (m + 1) := Nat.exists_eq_add_of_lt (by
      rw [Tree.size] at hle hne
      omega)
    rw [Tree.word] at hc
    rw [hm, moves_add, hc, Option.bind_some, moves] at hmoves
    obtain ⟨c', hc', -⟩ := Option.bind_eq_some_iff.mp hmoves
    exact ⟨c', hc'⟩
  obtain ⟨p, hd, hact, hrule, hhandle, -, -, -⟩ := accepts_cases hstep
  obtain ⟨i, hi, hdefault⟩ := h.rules hrule
  obtain rfl := hdefault.mp rfl
  cases hi.symm.trans hq
  rcases move?_cases hc' with
    ⟨next, x, rest, ha, -, -⟩ | ⟨slot, p', hd', next, ha, hrule', -, hgoto, -⟩
  · cases hact.symm.trans ha
  · cases hact.symm.trans ha
    cases hrule.symm.trans hrule'
    obtain ⟨j, -, hj, -⟩ := (hground.goto _ _ _ hgoto).moved
    obtain ⟨r, hr, hbody⟩ := Item.exists_production_of_next? hj
    rw [hname] at hbody
    exact hstart _ r hr (List.mem_of_getElem? hbody)

end ParsingTable

end Coscript
