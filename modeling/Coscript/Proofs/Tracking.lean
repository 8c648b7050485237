import Coscript.Proofs.Hierarchy
import Coscript.Proofs.Paths
import Coscript.Proofs.Reductions

/-!
# Tables track valid items

The state of a parser with a canonical or merged table tells which items are valid for the symbols
that have been pushed, but in a merged table not with which lookaheads: a reduction is entered for
the lookaheads of all states of a group. So a reduction is made when its complete item is valid for
the pushed symbols with some lookahead, and the terminal that it is made before is a lookahead of
this item, though maybe for other symbols.

* `ParsingTable.Tracks`: tables whose states follow the pushed symbols;
* `ParsingTable.Tracks.move`: what a move does to the pushed symbols;
* `Strategy.tracks`: canonical and merged tables track valid items.
-/

namespace Coscript

open Discipline

/-- Each state stands for the symbols that have been pushed when a parser is in it, and reductions
are by items that are valid for these. -/
structure ParsingTable.Tracks (t : ParsingTable) (g : Grammar) (production : Nat)
    (R : Nat → List Symbol → Prop) : Prop where
  initial : R t.initial []
  shift : ∀ {state σ y n}, R state σ → t.action state y = .shift n → R n (.terminal y :: σ)
  goto : ∀ {state σ a n}, R state σ → t.goto? state a = some n → R n (.nonTerminal a :: σ)
  reduce : ∀ {state σ y slot}, R state σ → t.action state y = .reduce slot →
    ∃ k p, g.production? k = some p ∧ t.rule? slot = some p ∧
      (slot = t.defaultRule ↔ k = production) ∧ (∃ l, g.Valid production σ ⟨k, p.body.length, l⟩) ∧
      ∃ τ l, g.Valid production τ ⟨k, p.body.length, l⟩ ∧ g.terminal? l = some y

variable {g : Grammar} {production : Nat} {t : ParsingTable}

/-! ### Canonical and merged tables -/

/-- **The canonical table tracks valid items.** -/
theorem tracks_canonical {c : Collection Nat} (hp : production < g.productions.size)
    (h : c.Exact .canonical g g.firstFollow production)
    (ht : c.Realizes .canonical g g.firstFollow production t) :
    t.Tracks g production fun n σ => c.reach? σ = some n where
  initial := by
    rw [ht.initial]
    rfl
  shift hσ hn := Collection.reach?_cons hσ (ht.shifted _ _ _ hn)
  goto hσ hn := Collection.reach?_cons hσ (ht.gone _ _ _ hn)
  reduce := by
    intro state σ y slot hσ hact
    obtain ⟨i, hi, hcomplete, ⟨q, hq, hrule⟩, hslot, n, hn, hterm⟩ := ht.reduced state y slot hact
    obtain rfl : n = i.lookahead := List.mem_singleton.mp hn
    have hvalid := (h.mem_itemsOf_iff hσ).mp hi
    obtain ⟨p, hprod, he⟩ := Grammar.Valid.of_complete hp hvalid hcomplete
    cases hq.symm.trans hprod
    rw [he] at hvalid
    rw [ht.default]
    exact ⟨_, q, hq, hrule, hslot, ⟨_, hvalid⟩, σ, _, hvalid, hterm⟩

/-- **The merged table tracks valid items.** -/
theorem tracks_merged {c : Collection Nat} {t₀ : ParsingTable} (hp : production < g.productions.size)
    (h : c.Exact .canonical g g.firstFollow production)
    (hitems : ∀ state, ∀ i ∈ c.itemsOf state, ∃ σ, g.Valid production σ i)
    (ht₀ : c.Realizes .canonical g g.firstFollow production t₀)
    (ht : (Merging.ofCollection c).table g c t₀ = .ok t) :
    t.Tracks g production fun n σ =>
      ∃ m, c.reach? σ = some m ∧ (Merging.ofCollection c).groupOf m = n := by
  set m := Merging.ofCollection c
  have hm := Merging.merges_of_table ht
  -- A symbol with a transition in some state of a group has one in each of its states.
  have hrow : ∀ {state k x n'} , k < c.size → m.groupOf state = m.groupOf k →
      (c.row state).get? x = some n' →
      ∃ n, (c.row k).get? x = some n ∧ m.groupOf n = m.groupOf n' := by
    intro state k x n' hk hgroup hn'
    obtain ⟨i, hi, hx⟩ := (h.keys state x).mp ⟨n', hn'⟩
    obtain ⟨i', hi', hcore⟩ := Merging.exists_core_mem (lt_size_of_row h hn') hk hgroup hi
    have hx' : i'.next? g = some x := by
      rw [← Item.next?_core, hcore]
      exact hx
    obtain ⟨n, hn⟩ := (h.keys k x).mpr ⟨i', hi', hx'⟩
    exact ⟨n, hn, Merging.groupOf_target h hgroup.symm hn hn'⟩
  refine ⟨⟨0, rfl, by rw [hm.initial, ht₀.initial]⟩, ?_, ?_, ?_⟩
  · rintro group σ y n ⟨k, hk, rfl⟩ hn
    obtain ⟨state, n', hgroup, hn', rfl⟩ := (hm.shift ..).mp hn
    obtain ⟨n, hn, hgroup'⟩ := hrow (h.reach?_lt hk) hgroup (ht₀.shifted state y n' hn')
    exact ⟨n, Collection.reach?_cons hk hn, hgroup'⟩
  · rintro group σ a n ⟨k, hk, rfl⟩ hn
    obtain ⟨state, n', hgroup, hn', rfl⟩ := (hm.goto ..).mp hn
    obtain ⟨n, hn, hgroup'⟩ := hrow (h.reach?_lt hk) hgroup (ht₀.gone state a n' hn')
    exact ⟨n, Collection.reach?_cons hk hn, hgroup'⟩
  · rintro group σ y slot ⟨k, hk, rfl⟩ hact
    obtain ⟨state, hgroup, hreduce⟩ := (hm.reduce ..).mp hact
    obtain ⟨i, hi, hcomplete, ⟨q, hq, hrule⟩, hslot, n, hn, hterm⟩ :=
      ht₀.reduced state y slot hreduce
    obtain rfl : n = i.lookahead := List.mem_singleton.mp hn
    obtain ⟨τ, hτ⟩ := hitems state i hi
    obtain ⟨p, hprod, hi'⟩ := Grammar.Valid.of_complete hp hτ hcomplete
    cases hq.symm.trans hprod
    obtain ⟨j, hj, hcore⟩ := Merging.exists_core_mem (Collection.lt_size_of_mem_itemsOf hi)
      (h.reach?_lt hk) hgroup hi
    have hcomplete' : j.next? g = none := by
      rw [← Item.next?_core, hcore]
      exact hcomplete
    have hvalid := (h.mem_itemsOf_iff hk).mp hj
    obtain ⟨p', hprod', hj'⟩ := Grammar.Valid.of_complete hp hvalid hcomplete'
    have hsame : j.production = i.production := by
      change j.core.production = i.core.production
      rw [hcore]
    rw [hsame] at hprod' hj'
    cases hq.symm.trans hprod'
    rw [hj'] at hvalid
    rw [hi'] at hτ
    rw [hm.defaultRule]
    exact ⟨i.production, q, hq, (hm.rule slot).trans hrule, hslot, ⟨_, hvalid⟩, τ, _, hτ, hterm⟩

namespace Strategy

/-- **Canonical and merged tables track the valid items of a deterministic grammar.** -/
theorem tracks {strategy : Strategy} (hs : strategy ≠ simple) (ht : strategy.build g = .ok t) :
    ∃ production R, g.startProduction = .ok production ∧ g.Deterministic production ∧
      t.Tracks g production R := by
  obtain ⟨t₀, ht₀⟩ : ∃ t₀, canonical.build g = .ok t₀ := by
    cases strategy with
    | simple => exact absurd rfl hs
    | canonical => exact ⟨t, ht⟩
    | merged => exact exists_table_of_merged ht
  rw [build_canonical] at ht₀
  obtain ⟨production, hp, htable⟩ := bind_eq_ok_iff.mp ht₀
  obtain ⟨hexact, hlt, hitems⟩ := canonical_collection hp
  have hproper := fun state i hi => (hitems state i hi).1
  have hd := Grammar.deterministic_of_consistent hlt hexact
    (Collection.consistent_of_table _ hexact hproper htable)
  have hrealizes := Collection.realizes_of_table _ hexact hproper htable
  cases strategy with
  | simple => exact absurd rfl hs
  | canonical =>
    rw [build_canonical, hp] at ht
    cases htable.symm.trans ht
    exact ⟨production, _, hp, hd, tracks_canonical hlt hexact hrealizes⟩
  | merged =>
    rw [build_merged] at ht
    obtain ⟨production', hp', ht⟩ := bind_eq_ok_iff.mp ht
    cases hp.symm.trans hp'
    obtain ⟨t₁, htable', hmerge⟩ := bind_eq_ok_iff.mp ht
    cases htable.symm.trans htable'
    obtain ⟨-, hvalid⟩ := Collection.build_exact (LookaheadBound.canonical g) hlt
    exact ⟨production, _, hp, hd,
      tracks_merged hlt hexact (hvalid _ (inductive_valid production)) hrealizes hmerge⟩

end Strategy

/-! ### Pushed symbols -/

namespace ParsingTable

open Configuration

variable {R : Nat → List Symbol → Prop}

/-- Symbols for pushed trees, so that each state stands for the symbols below it. -/
inductive Along (R : Nat → List Symbol → Prop) : Nat → List (Nat × Tree) → List Symbol → Prop
  | nil {n : Nat} (h : R n []) : Along R n [] []
  | cons {state n : Nat} {T : Tree} {stack : List (Nat × Tree)} {x : Symbol} {σ : List Symbol}
      (h : Along R state stack σ) (hn : R n (x :: σ)) : Along R n ((state, T) :: stack) (x :: σ)

lemma Along.head {n : Nat} {stack : List (Nat × Tree)} {σ : List Symbol} (h : Along R n stack σ) :
    R n σ := by
  cases h with
  | nil h => exact h
  | cons _ hn => exact hn

lemma Along.length_eq {n : Nat} {stack : List (Nat × Tree)} {σ : List Symbol}
    (h : Along R n stack σ) : stack.length = σ.length := by
  induction h with
  | nil => rfl
  | cons _ _ ih => rw [List.length_cons, List.length_cons, ih]

/-- What lies below some trees has the symbols below theirs. -/
lemma Along.drop {n : Nat} {frames below : List (Nat × Tree)} {σ : List Symbol}
    (h : Along R n (frames ++ below) σ) :
    Along R (((frames.getLast?).map (·.1)).getD n) below (σ.drop frames.length) := by
  induction frames generalizing n σ with
  | nil => exact h
  | cons f frames ih =>
    cases h with
    | @cons state _ T _ x σ h _ =>
      have := ih h
      cases frames with
      | nil => exact this
      | cons f' frames =>
        rw [List.getLast?_cons_cons]
        rw [List.getLast?_cons] at this ⊢
        exact this

/-- An action is found in a column that accepts the next token. -/
lemma exists_column_of_action (t : ParsingTable) (c : Configuration) :
    ∃ y, t.action c.state y = c.action t ∧
      ∀ x rest, c.rest = x :: rest → y.accepts x.type x.text = true := by
  unfold Configuration.action
  cases hrest : c.rest with
  | nil => exact ⟨.endOfInput, rfl, fun _ _ h => by cases h⟩
  | cons x rest =>
    obtain ⟨y, hy, hact⟩ := exists_column_of_lookup (Eq.refl (lookup t c.state (some x)))
    refine ⟨y, hact, ?_⟩
    rintro x' rest' h
    cases h
    exact hy

/-- What a move that leaves the input alone does to the pushed symbols: it reduces a production,
which before a token is one that is reduced before some token. -/
def ReducesBy (t : ParsingTable) (g : Grammar) (production : Nat) (c : Configuration)
    (σ σ' : List Symbol) : Prop :=
  ∃ k l slot, g.Reduction production k l σ σ' ∧ c.action t = .reduce slot ∧
    t.rule? slot = g.production? k ∧ (slot = t.defaultRule ↔ k = production) ∧
    (c.rest ≠ [] → ∃ p τ l', g.production? k = some p ∧
      g.Valid production τ ⟨k, p.body.length, l'⟩ ∧ l' ≠ Grammar.endOfInput)

/-- **A move pushes a terminal or reduces the pushed symbols.** -/
theorem Tracks.move (h : t.Tracks g production R) {c c' : Configuration} {σ : List Symbol}
    (ha : Along R c.state c.stack σ) (hmove : c.move? t = some c') :
    ∃ σ', Along R c'.state c'.stack σ' ∧
      (c'.rest = c.rest → t.ReducesBy g production c σ σ') := by
  obtain ⟨y, hy, hacc⟩ := t.exists_column_of_action c
  rcases move?_cases hmove with
    ⟨next, x, rest, hact, hrest, rfl⟩ | ⟨slot, p, hd, next, hact, hrule, hhandle, hnext, rfl⟩
  · refine ⟨.terminal y :: σ, .cons ha (h.shift ha.head (hy.trans hact)), ?_⟩
    intro he
    rw [hrest] at he
    exact absurd he.symm (List.cons_ne_self x rest)
  · obtain ⟨k, q, hk, hrule', hslot, ⟨l, hvalid⟩, τ, l', hvalid', hterm⟩ :=
      h.reduce ha.head (hy.trans hact)
    cases hrule.symm.trans hrule'
    obtain ⟨frames, hstack, hlen, -, -, hstate⟩ := handle?_spec hhandle
    obtain ⟨ρ, hσ, -⟩ := hvalid.begun hk
    rw [List.take_length] at hσ
    have hbelow : σ.drop frames.length = ρ := by
      rw [hσ, List.drop_left' (by rw [List.length_reverse, hlen])]
    rw [hstack] at ha
    have ha' := ha.drop
    rw [← hstate, hbelow] at ha'
    refine ⟨.nonTerminal p.name :: ρ, .cons ha' (h.goto ha'.head hnext), ?_⟩
    intro _
    refine ⟨k, l, slot, ⟨p, ρ, hk, hvalid, hσ, rfl⟩, hact, hrule.trans hk.symm, hslot, ?_⟩
    intro hne
    refine ⟨p, τ, l', hk, hvalid', ?_⟩
    rintro rfl
    obtain ⟨x, rest, hrest⟩ := List.exists_cons_of_ne_nil hne
    rw [g.terminal?_special.1] at hterm
    cases hterm
    cases hacc x rest hrest

end ParsingTable

end Coscript
