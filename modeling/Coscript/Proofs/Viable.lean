import Coscript.Proofs.Parsing

/-!
# Viable prefixes

What has been pushed in the course of a parse is the left part of a derivation tree that is not
complete yet: some item tells which production is under way, and some symbols are still to come
after it. Any trees for what is still to come complete the derivation tree, and a table that covers
its items, run on the completed word, passes through a configuration with exactly these trees pushed.

* `Grammar.Viable`: trees that can be on the stack, with the item under way and what follows it;
* `Grammar.Viable.derivation`: a viable prefix can be completed to a sentence;
* `ParsingTable.Covers.moves_viable`: the run of the completed sentence passes through the prefix.
-/

namespace Coscript

/-! ### What is left of a body -/

namespace Item

variable {L : Type} {g : Grammar}

/-- The symbols behind the dot. -/
def remaining (i : Item L) (g : Grammar) : List Symbol :=
  ((g.production? i.production).map fun p => p.body.drop i.dot).getD []

lemma remaining_eq {i : Item L} {p : Production} (hp : g.production? i.production = some p) :
    i.remaining g = p.body.drop i.dot := by
  rw [remaining, hp, Option.map_some, Option.getD_some]

lemma remaining_advance (i : Item L) : i.advance.remaining g = i.rest g := rfl

lemma remaining_of_next? {i : Item L} {x : Symbol} (h : i.next? g = some x) :
    i.remaining g = x :: i.rest g := by
  obtain ⟨p, hp, hx⟩ := exists_production_of_next? h
  obtain ⟨hlt, hget⟩ := List.getElem?_eq_some_iff.mp hx
  rw [remaining_eq hp, List.drop_eq_getElem_cons hlt, hget, rest, hp, Option.map_some,
    Option.getD_some]

/-- Trees for what is left of a body begin with one for the symbol after the dot. -/
lemma derivesAll_remaining {i : Item L} {x : Symbol} (hx : i.next? g = some x) {T : Tree}
    (hT : g.Derives x T) {ts : List Tree} (hts : g.DerivesAll (i.rest g) ts) :
    g.DerivesAll (i.remaining g) (T :: ts) := by
  rw [remaining_of_next? hx]
  exact .cons hT hts

end Item

namespace Grammar

variable {g : Grammar} {production : Nat}

lemma DerivesAll.split {xs ys : List Symbol} {ts : List Tree} (h : g.DerivesAll (xs ++ ys) ts) :
    ∃ us vs, ts = us ++ vs ∧ g.DerivesAll xs us ∧ g.DerivesAll ys vs := by
  induction xs generalizing ts with
  | nil => exact ⟨[], ts, rfl, .nil, h⟩
  | cons x xs ih =>
    cases h with
    | @cons _ t _ ts ht hs =>
      obtain ⟨us, vs, rfl, hus, hvs⟩ := ih hs
      exact ⟨t :: us, vs, rfl, .cons ht hus, hvs⟩

/-! ### Viable prefixes -/

/-- Trees that can have been pushed when an item is under way, and the symbols that come after the
production of the item is complete. -/
inductive Viable (g : Grammar) (production : Nat) :
    List Tree → Item Unit → List Symbol → Prop
  /-- Nothing has been pushed for the start production. -/
  | start : Viable g production [] ⟨production, 0, ()⟩ []
  /-- A tree for the symbol after the dot is pushed. -/
  | push {ts : List Tree} {i : Item Unit} {β : List Symbol} {x : Symbol} {T : Tree}
    (h : Viable g production ts i β) (hx : i.next? g = some x) (hT : g.Derives x T) :
    Viable g production (ts ++ [T]) i.advance β
  /-- A production of the name after the dot is begun. -/
  | down {ts : List Tree} {i : Item Unit} {β : List Symbol} {a : String} {k : Nat}
    (h : Viable g production ts i β) (ha : i.next? g = some (.nonTerminal a))
    (hk : k ∈ g.productionsOf a) : Viable g production ts ⟨k, 0, ()⟩ (i.rest g ++ β)

/-- **Trees for what is still to come complete a viable prefix to a sentence.** -/
theorem Viable.derivation {p : Production} (hp : g.production? production = some p)
    (hname : p.name = g.start) {ts : List Tree} {i : Item Unit} {β : List Symbol}
    (h : g.Viable production ts i β) :
    ∀ {us vs : List Tree}, g.DerivesAll (i.remaining g) us → g.DerivesAll β vs →
      ∃ D, g.Derives (.nonTerminal g.start) D ∧
        D.word = Tree.wordAll ts ++ (Tree.wordAll us ++ Tree.wordAll vs) ∧
        Tree.sizeAll ts + Tree.sizeAll us + Tree.sizeAll vs < D.size := by
  induction h with
  | start =>
    intro us vs hus hvs
    cases hvs
    rw [Item.remaining_eq hp, List.drop_zero] at hus
    refine ⟨.node g.start us, hname ▸ .node hp hus, ?_, ?_⟩
    · simp [Tree.word, Tree.wordAll]
    · simp [Tree.size, Tree.sizeAll]
  | @push ts i β x T _ hx hT ih =>
    intro us vs hus hvs
    rw [Item.remaining_advance] at hus
    obtain ⟨D, hD, hword, hsize⟩ := ih (Item.derivesAll_remaining hx hT hus) hvs
    refine ⟨D, hD, ?_, ?_⟩
    · simpa [Tree.wordAll] using hword
    · simp only [Tree.sizeAll_append, Tree.sizeAll] at hsize ⊢
      omega
  | @down ts i β a k _ ha hk ih =>
    intro us vs hus hvs
    obtain ⟨q, hq, rfl⟩ := mem_productionsOf_iff.mp hk
    obtain ⟨vs₁, vs₂, rfl, hvs₁, hvs₂⟩ := hvs.split
    rw [Item.remaining_eq hq, List.drop_zero] at hus
    obtain ⟨D, hD, hword, hsize⟩ :=
      ih (Item.derivesAll_remaining ha (.node hq hus) hvs₁) hvs₂
    refine ⟨D, hD, ?_, ?_⟩
    · simpa [Tree.wordAll, Tree.word] using hword
    · simp only [Tree.sizeAll_append, Tree.sizeAll, Tree.size] at hsize ⊢
      omega

end Grammar

/-! ### Runs through viable prefixes -/

namespace ParsingTable.Covers

open Configuration

variable {t : ParsingTable} {g : Grammar} {production : Nat} {I : Nat → Item Nat → Prop}

/-- **The run of a completed sentence passes through the viable prefix.** -/
theorem moves_viable (h : t.Covers g production I) (hg : g.Unmixed) {ts : List Tree}
    {i : Item Unit} {β : List Symbol} (hv : g.Viable production ts i β) :
    ∀ {us vs : List Tree}, g.DerivesAll (i.remaining g) us → g.DerivesAll β vs →
      ∃ n frames last l,
        moves t (Tree.sizeAll ts)
            (.start t (Tree.wordAll ts ++ (Tree.wordAll us ++ Tree.wordAll vs))) =
          some ⟨n, frames, Tree.wordAll us ++ Tree.wordAll vs, last⟩ ∧
        (frames.map (·.2)).reverse = ts ∧ I n ⟨i.production, i.dot, l⟩ ∧
        g.IsColumn l (Tree.wordAll vs).head? := by
  induction hv with
  | start =>
    intro us vs hus hvs
    cases hvs
    exact ⟨t.initial, [], .start, _, rfl, rfl, h.initial, rfl⟩
  | @push ts i β x T _ hx hT ih =>
    intro us vs hus hvs
    obtain ⟨n, frames, last, l, hmoves, hframes, hI, hcol⟩ :=
      ih (Item.derivesAll_remaining hx hT hus) hvs
    have hx' : Item.next? ⟨i.production, i.dot, l⟩ g = some x := hx
    obtain ⟨p, hp, -⟩ := Item.exists_production_of_next? hx'
    obtain ⟨l', hl', hcol'⟩ := exists_lookaheadBehind hp hx' hus hcol
    obtain ⟨m, last', hm, hmoves'⟩ := h.moves_tree hg T hT hI hx' ⟨l', hl', hcol'⟩ frames last
    refine ⟨m, (n, T) :: frames, last', l, ?_, ?_, hm, hcol⟩
    · rw [Tree.wordAll, List.append_assoc] at hmoves
      rw [Tree.sizeAll_append, Tree.wordAll_append, List.append_assoc]
      simp only [Tree.sizeAll, Tree.wordAll, List.append_nil, Nat.add_zero]
      rw [moves_add, hmoves]
      exact hmoves'
    · rw [List.map_cons, List.reverse_cons, hframes]
  | @down ts i β a k _ ha hk ih =>
    intro us vs hus hvs
    obtain ⟨q, hq, rfl⟩ := Grammar.mem_productionsOf_iff.mp hk
    obtain ⟨vs₁, vs₂, rfl, hvs₁, hvs₂⟩ := hvs.split
    rw [Item.remaining_eq hq, List.drop_zero] at hus
    obtain ⟨n, frames, last, l, hmoves, hframes, hI, hcol⟩ :=
      ih (Item.derivesAll_remaining ha (.node hq hus) hvs₁) hvs₂
    have ha' : Item.next? ⟨i.production, i.dot, l⟩ g = some (.nonTerminal q.name) := ha
    obtain ⟨p, hp, -⟩ := Item.exists_production_of_next? ha'
    obtain ⟨l', hl', hcol'⟩ := exists_lookaheadBehind hp ha' hvs₁ hcol
    refine ⟨n, frames, last, l', ?_, hframes, ?_, ?_⟩
    · simpa [Tree.wordAll, Tree.word] using hmoves
    · exact h.implied hI (Discipline.mem_implied_iff.mpr ⟨_, ha', hk, rfl, hl'⟩)
    · rwa [Tree.wordAll_append]

/-- A run along a derivation tree comes to the end of the input one move before its last one. -/
lemma moves_sentence (h : t.Covers g production I) (hg : g.Unmixed)
    (hp : g.startProduction = .ok production) {D : Tree}
    (hD : g.Derives (.nonTerminal g.start) D) :
    ∃ c, moves t (D.size - 1) (.start t D.word) = some c ∧ c.rest = [] := by
  obtain ⟨i, p, ts, hi, hname, rfl, hts⟩ := hD.isNode
  obtain ⟨-, -, -, honly⟩ := Grammar.startProduction_spec hp
  obtain rfl := honly i p hi hname
  obtain ⟨n, last, frames, -, -, hmoves⟩ := h.moves_start hg hi hts
  exact ⟨_, hmoves, rfl⟩

end ParsingTable.Covers

end Coscript
