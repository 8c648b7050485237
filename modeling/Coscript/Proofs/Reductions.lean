import Coscript.Proofs.Expansion

/-!
# Reductions before one terminal

A reduction replaces the body of a production on top of the pushed symbols by its name, when the
complete item of the production is valid for them. A terminal that is expected after a reduction was
a valid lookahead of it: the item that expects the terminal came about by moving a dot over the name
of the production, or is implied by such an item. So a run of reductions that ends before a terminal
is a run of reductions before this terminal.

On the other hand, wherever a terminal is expected, reductions before it lead to a place where it is
shifted, or, for the end of the input, to the body of the start production. In a deterministic
grammar these are the only reductions before it, so that they do not go on for ever.

* `Grammar.Reduction.before`: what is expected after a reduction is a lookahead of it;
* `Grammar.Valid.exists_ends`: where reductions before an expected terminal lead;
* `Grammar.Deterministic.ends_of_endless`: reductions that go on for ever are before the end of the
  input, and come through the body of the start production.
-/

namespace Coscript

open Discipline Relation

namespace Item

variable {L : Type} {g : Grammar}

/-- What is left of a body begins with the symbol after the dot. -/
lemma next?_of_remaining {i : Item L} {x : Symbol} {xs : List Symbol}
    (h : i.remaining g = x :: xs) : i.next? g = some x ∧ i.rest g = xs := by
  cases hp : g.production? i.production with
  | none => simp [remaining, hp] at h
  | some p =>
    rw [remaining_eq hp] at h
    exact next?_of_drop hp h

end Item

namespace Grammar

variable {g : Grammar} {production k z : Nat} {σ σ' : List Symbol}

/-- The pushed symbols that form the body of a production give way to its name, before a lookahead
for which the complete item is valid. -/
def Reduction (g : Grammar) (production k z : Nat) (σ σ' : List Symbol) : Prop :=
  ∃ p τ, g.production? k = some p ∧ g.Valid production σ ⟨k, p.body.length, z⟩ ∧
    σ = p.body.reverse ++ τ ∧ σ' = .nonTerminal p.name :: τ

/-- Some reduction before a lookahead. -/
def Reduces (g : Grammar) (production z : Nat) (σ σ' : List Symbol) : Prop :=
  ∃ k, g.Reduction production k z σ σ'

/-- A valid item expects a terminal. -/
def ExpectedAt (g : Grammar) (production z : Nat) (σ : List Symbol) : Prop :=
  ∃ i, g.Valid production σ i ∧ g.Expects z (i.remaining g) i.lookahead

/-- A valid item shifts a terminal. -/
def Shifts (g : Grammar) (production z : Nat) (σ : List Symbol) : Prop :=
  ∃ i t, g.Valid production σ i ∧ i.next? g = some (.terminal t) ∧ g.terminal? z = some t

/-- Where reductions before a terminal come to an end: the terminal is shifted, or the body of the
start production is pushed before the end of the input. -/
def Ends (g : Grammar) (production z : Nat) (σ : List Symbol) : Prop :=
  g.Shifts production z σ ∨ z = endOfInput ∧ ∃ p, g.production? production = some p ∧
    σ = p.body.reverse ∧ g.Valid production σ ⟨production, p.body.length, endOfInput⟩

/-! ### Expected terminals -/

lemma Vanishes.expects {xs ys : List Symbol} {l : Nat} (hxs : g.Vanishes xs)
    (h : g.Expects z ys l) : g.Expects z (xs ++ ys) l := by
  rcases h with h | ⟨hys, hl⟩
  · left
    induction hxs with
    | nil => exact h
    | cons hp hbody _ _ ih => exact .behind (.cons hp hbody .nil) ih
  · exact .inr ⟨hxs.append hys, hl⟩

/-- What an implied item expects, the item that implies it expects. -/
lemma expects_of_implied (ho : g.Ordinary) {i j : Item Nat}
    (hj : j ∈ canonical.implied g g.firstFollow i)
    (h : g.Expects z (j.remaining g) j.lookahead) : g.Expects z (i.remaining g) i.lookahead := by
  obtain ⟨a, ha, hk, hdot, hl⟩ := mem_implied_iff.mp hj
  obtain ⟨p, hp, rfl⟩ := mem_productionsOf_iff.mp hk
  rw [Item.remaining_eq hp, hdot, List.drop_zero] at h
  rw [Item.remaining_of_next? ha]
  rcases h with h | ⟨hv, rfl⟩
  · exact .inl (.enter hp h)
  · have hrest := (mem_lookaheadsBehind_iff ho).mp (show _ ∈ lookaheadsBehind _ _ _ from hl)
    exact Vanishes.expects (.cons hp hv .nil) hrest

lemma expects_of_reaches (ho : g.Ordinary) {i j : Item Nat}
    (hr : canonical.Reaches g g.firstFollow i j) (h : g.Expects z (j.remaining g) j.lookahead) :
    g.Expects z (i.remaining g) i.lookahead := by
  induction hr with
  | refl => exact h
  | tail _ hk ih => exact ih (expects_of_implied ho hk h)

lemma Reduction.expectedAt (h : g.Reduction production k z σ σ') : g.ExpectedAt production z σ := by
  obtain ⟨p, τ, hp, hvalid, -, -⟩ := h
  refine ⟨_, hvalid, .inr ⟨?_, rfl⟩⟩
  rw [Item.remaining_eq hp, List.drop_length]
  exact .nil

/-- The item that implies the beginning of a production, once the production is reduced. -/
lemma valid_begin (ho : g.Ordinary) {i : Item Nat} {p : Production}
    (hi : g.Valid production σ i) (hx : i.next? g = some (.nonTerminal p.name))
    (hp : g.production? k = some p) (hz : g.Expects z (i.rest g) i.lookahead) :
    g.Valid production σ ⟨k, 0, z⟩ :=
  hi.implied (mem_implied_iff.mpr ⟨p.name, hx, mem_productionsOf_iff.mpr ⟨p, hp, rfl⟩, rfl,
    (mem_lookaheadsBehind_iff ho).mpr hz⟩)

/-- A production that was begun can be reduced once its body is pushed. -/
lemma reduction_of_begin {p : Production} (hp : g.production? k = some p)
    (h : g.Valid production σ ⟨k, 0, z⟩) :
    g.Reduction production k z (p.body.reverse ++ σ) (.nonTerminal p.name :: σ) := by
  have hmoved := h.moved hp le_rfl
  rw [List.take_length] at hmoved
  exact ⟨p, σ, hp, hmoved, rfl, rfl⟩

/-- **What is expected after a reduction is a lookahead of it.** -/
theorem Reduction.before (ho : g.Ordinary) {l : Nat} (h : g.Reduction production k l σ σ')
    (hz : g.ExpectedAt production z σ') : g.Reduction production k z σ σ' := by
  obtain ⟨p, τ, hp, -, rfl, rfl⟩ := h
  obtain ⟨j, hj, hexp⟩ := hz
  obtain ⟨i, hi, hx, hr⟩ := valid_cons_iff.mp hj
  have hrest := expects_of_reaches ho hr hexp
  rw [Item.remaining_advance] at hrest
  exact reduction_of_begin hp (valid_begin ho hi hx hp hrest)

/-! ### Reductions lead to what is expected -/

/-- Names that can vanish are pushed by reductions before what is expected behind them. -/
lemma Vanishes.pushed (ho : g.Ordinary) {xs : List Symbol} (hxs : g.Vanishes xs) :
    ∀ {σ : List Symbol} {i : Item Nat} {ys : List Symbol}, g.Valid production σ i →
      i.remaining g = xs ++ ys → g.Expects z ys i.lookahead →
      ReflTransGen (g.Reduces production z) σ (xs.reverse ++ σ) ∧
        ∃ j, g.Valid production (xs.reverse ++ σ) j ∧ j.production = i.production ∧
          j.lookahead = i.lookahead ∧ j.remaining g = ys := by
  induction hxs with
  | nil => exact fun hi hrem _ => ⟨.refl, _, hi, rfl, rfl, hrem⟩
  | @cons k p xs hp _ hxs ihbody ihxs =>
    intro σ i ys hi hrem hexp
    obtain ⟨hx, hrest⟩ := Item.next?_of_remaining hrem
    have hbegin : g.Valid production σ ⟨k, 0, z⟩ :=
      valid_begin ho hi hx hp (hrest ▸ hxs.expects hexp)
    have hbody : Item.remaining (⟨k, 0, z⟩ : Item Nat) g = p.body ++ [] := by
      rw [Item.remaining_eq hp, List.drop_zero, List.append_nil]
    obtain ⟨hpush, -⟩ := ihbody hbegin hbody (.inr ⟨.nil, rfl⟩)
    have hreduce := hpush.tail ⟨k, reduction_of_begin hp hbegin⟩
    obtain ⟨hpush', j, hj, hprod, hl, hj'⟩ := ihxs (hi.advance hx) hrest hexp
    rw [List.reverse_cons, List.append_assoc, List.singleton_append]
    exact ⟨hreduce.trans hpush', j, hj, hprod, hl, hj'⟩

/-- Items that are under way are of productions that are used. -/
lemma Valid.reachable (hp : g.startProduction = .ok production) {i : Item Nat}
    (h : g.Valid production σ i) :
    ∃ p, g.production? i.production = some p ∧ g.Reachable p.name := by
  obtain ⟨q, hq, hname, -⟩ := startProduction_spec hp
  refine Inductive.valid (Q := fun i : Item Nat =>
    ∃ p, g.production? i.production = some p ∧ g.Reachable p.name) ?_ h
  refine ⟨⟨q, hq, hname ▸ .start⟩, ?_, fun i x hi _ => hi⟩
  rintro i j ⟨p, hprod, hreach⟩ hj
  obtain ⟨a, ha, hk, -, -⟩ := mem_implied_iff.mp hj
  obtain ⟨r, hr, rfl⟩ := mem_productionsOf_iff.mp hk
  obtain ⟨p', hp', hget⟩ := Item.exists_production_of_next? ha
  cases hprod.symm.trans hp'
  exact ⟨r, hr, hreach.body hprod rfl (List.mem_of_getElem? hget)⟩

/-- In an open grammar every item with a name after its dot implies items. -/
lemma Open.exists_lookahead (hopen : g.Open) (hp : g.startProduction = .ok production)
    {i : Item Nat} {a : String} (hi : g.Valid production σ i)
    (ha : i.next? g = some (.nonTerminal a)) :
    ∃ l, l ∈ lookaheadsBehind g g.firstFollow i := by
  obtain ⟨p, hprod, hreach⟩ := hi.reachable hp
  have hbody := Item.body_eq_of_next? hprod ha
  unfold lookaheadsBehind
  dsimp only
  rcases hopen _ p hprod hreach _ a _ hbody with hv | ⟨n, hn⟩
  · rw [if_pos hv]
    exact ⟨_, IdSet.mem_insert.mpr (.inl rfl)⟩
  · split
    · exact ⟨n, IdSet.mem_insert.mpr (.inr hn)⟩
    · exact ⟨n, hn⟩

/-- Reductions before a terminal lead to the left corner that it is. -/
lemma Corner.exists_shifts (ho : g.Ordinary) (hopen : g.Open)
    (hp : g.startProduction = .ok production) {xs : List Symbol} (h : g.Corner z xs) :
    ∀ {σ : List Symbol} {i : Item Nat} {ys : List Symbol}, g.Valid production σ i →
      i.remaining g = xs ++ ys →
      ∃ σ', ReflTransGen (g.Reduces production z) σ σ' ∧ g.Shifts production z σ' := by
  induction h with
  | @here t xs ht =>
    intro σ i ys hi hrem
    exact ⟨σ, .refl, i, t, hi, (Item.next?_of_remaining hrem).1, ht⟩
  | @enter k p xs hk _ ih =>
    intro σ i ys hi hrem
    obtain ⟨hx, -⟩ := Item.next?_of_remaining hrem
    obtain ⟨l, hl⟩ := hopen.exists_lookahead hp hi hx
    have hbegin : g.Valid production σ ⟨k, 0, l⟩ :=
      valid_begin ho hi hx hk ((mem_lookaheadsBehind_iff ho).mp hl)
    have hbody : Item.remaining (⟨k, 0, l⟩ : Item Nat) g = p.body ++ [] := by
      rw [Item.remaining_eq hk, List.drop_zero, List.append_nil]
    exact ih hbegin hbody
  | @behind x xs hx hxs ih =>
    intro σ i ys hi hrem
    have hsplit : i.remaining g = [x] ++ (xs ++ ys) := hrem
    obtain ⟨hpush, j, hj, -, -, hrem'⟩ := hx.pushed ho hi hsplit (.inl (hxs.append ys))
    obtain ⟨σ', hreduce, hshift⟩ := ih hj hrem'
    exact ⟨σ', hpush.trans hreduce, hshift⟩

/-- Reductions before the lookahead of an item come to an end once its whole body is pushed. -/
def Finishes (g : Grammar) (production : Nat) (σ : List Symbol) (i : Item Nat) : Prop :=
  ∀ p τ, g.production? i.production = some p → σ = (p.body.take i.dot).reverse ++ τ →
    ∃ σ', ReflTransGen (g.Reduces production i.lookahead) (p.body.reverse ++ τ) σ' ∧
      g.Ends production i.lookahead σ'

lemma Finishes.advance {i : Item Nat} {x : Symbol} (h : g.Finishes production σ i)
    (hx : i.next? g = some x) : g.Finishes production (x :: σ) i.advance := by
  intro p τ hprod hσ
  obtain ⟨q, hq, hget⟩ := Item.exists_production_of_next? hx
  cases (show g.production? i.production = some p from hprod).symm.trans hq
  obtain ⟨hlt, hget⟩ := List.getElem?_eq_some_iff.mp hget
  rw [show i.advance.dot = i.dot + 1 from rfl, List.take_succ_eq_append_getElem hlt, hget,
    List.reverse_concat, List.cons_append] at hσ
  exact h p τ hprod (List.cons.inj hσ).2

/-- Reductions before what an item expects lead through what is left of its body, if it can
vanish, and to a shift otherwise. -/
lemma Finishes.exists_ends (ho : g.Ordinary) (hopen : g.Open)
    (hp : g.startProduction = .ok production) {i : Item Nat} (hf : g.Finishes production σ i)
    (hi : g.Valid production σ i) (hz : g.Expects z (i.remaining g) i.lookahead) :
    ∃ σ', ReflTransGen (g.Reduces production z) σ σ' ∧ g.Ends production z σ' := by
  rcases hz with hcorner | ⟨hv, rfl⟩
  · obtain ⟨σ', hreduce, hshift⟩ := hcorner.exists_shifts ho hopen hp hi (List.append_nil _).symm
    exact ⟨σ', hreduce, .inl hshift⟩
  · obtain ⟨hpush, -⟩ := hv.pushed ho hi (List.append_nil _).symm (.inr ⟨.nil, rfl⟩)
    obtain ⟨p, hprod, -⟩ := hi.reachable hp
    obtain ⟨τ, rfl, -⟩ := hi.begun hprod
    obtain ⟨σ', hreduce, hends⟩ := hf p τ hprod rfl
    refine ⟨σ', hpush.trans ?_, hends⟩
    rwa [Item.remaining_eq hprod, ← List.append_assoc, ← List.reverse_append,
      List.take_append_drop]

/-- A valid item finishes: the induction is on how the item came to be valid, so that the item that
implied it finishes after it. -/
lemma Valid.finishes (ho : g.Ordinary) (hopen : g.Open) (hp : g.startProduction = .ok production)
    {i : Item Nat} (h : g.Valid production σ i) : g.Finishes production σ i := by
  induction h with
  | start =>
    intro p τ hprod hσ
    obtain rfl : τ = [] := hσ.symm
    have hmoved := (Discipline.Valid.start (d := canonical) (s := g.firstFollow)).moved hprod le_rfl
    rw [List.take_length, List.append_nil] at hmoved
    refine ⟨_, .refl, .inr ⟨rfl, p, hprod, List.append_nil _, ?_⟩⟩
    rw [List.append_nil]
    exact hmoved
  | advance _ hx ih => exact ih.advance hx
  | @implied σ i j hi hj ih =>
    intro p τ hprod hσ
    obtain ⟨a, ha, hk, hdot, hl⟩ := mem_implied_iff.mp hj
    obtain ⟨q, hq, rfl⟩ := mem_productionsOf_iff.mp hk
    cases hprod.symm.trans hq
    rw [hdot, List.take_zero] at hσ
    obtain rfl : σ = τ := hσ
    have hrest : g.Expects j.lookahead (i.advance.remaining g) i.advance.lookahead :=
      (mem_lookaheadsBehind_iff ho).mp hl
    have hbegin := valid_begin ho hi ha hprod hrest
    obtain ⟨σ', hreduce, hends⟩ :=
      (ih.advance ha).exists_ends ho hopen hp (hi.advance ha) hrest
    exact ⟨σ', .head ⟨_, reduction_of_begin hprod hbegin⟩ hreduce, hends⟩

/-- **Reductions before an expected terminal lead to a place where it is shifted**, or, for the end
of the input, to the body of the start production. -/
theorem Valid.exists_ends (ho : g.Ordinary) (hopen : g.Open)
    (hp : g.startProduction = .ok production) (h : g.ExpectedAt production z σ) :
    ∃ σ', ReflTransGen (g.Reduces production z) σ σ' ∧ g.Ends production z σ' := by
  obtain ⟨i, hi, hz⟩ := h
  exact (hi.finishes ho hopen hp).exists_ends ho hopen hp hi hz

/-! ### Deterministic reductions -/

lemma next?_complete {p : Production} (hp : g.production? k = some p) (l : Nat) :
    Item.next? (⟨k, p.body.length, l⟩ : Item Nat) g = none :=
  (Item.next?_eq_none_iff hp).mpr le_rfl

/-- Before a terminal one production is reduced. -/
lemma Deterministic.production_eq (hd : g.Deterministic production) {k' : Nat}
    {σ₁ σ₂ : List Symbol} (h : g.Reduction production k z σ σ₁)
    (h' : g.Reduction production k' z σ σ₂) : k = k' := by
  obtain ⟨p, τ, hp, hvalid, -, -⟩ := h
  obtain ⟨p', τ', hp', hvalid', -, -⟩ := h'
  exact hd.reduce hvalid hvalid' (next?_complete hp z) (next?_complete hp' z) rfl

lemma Deterministic.reduces_unique (hd : g.Deterministic production) {σ₁ σ₂ : List Symbol}
    (h : g.Reduces production z σ σ₁) (h' : g.Reduces production z σ σ₂) : σ₁ = σ₂ := by
  obtain ⟨k, h⟩ := h
  obtain ⟨k', h'⟩ := h'
  obtain rfl := hd.production_eq h h'
  obtain ⟨p, τ, hp, -, rfl, rfl⟩ := h
  obtain ⟨p', τ', hp', -, hσ, rfl⟩ := h'
  cases hp.symm.trans hp'
  rw [List.append_cancel_left hσ]

lemma Deterministic.not_shifts (hd : g.Deterministic production) (h : g.Reduces production z σ σ') :
    ¬ g.Shifts production z σ := by
  obtain ⟨k, p, τ, hp, hvalid, -, -⟩ := h
  rintro ⟨i, t, hi, hx, hz⟩
  exact hd.shift hi hvalid hx (next?_complete hp z) hz

variable {f : Nat → List Symbol}

/-- Reductions that go on for ever go through everything that reductions lead to. -/
lemma Deterministic.exists_of_reduces (hd : g.Deterministic production)
    (hf : ∀ n, g.Reduces production z (f n) (f (n + 1)))
    (h : ReflTransGen (g.Reduces production z) (f 0) σ) : ∃ n, f n = σ := by
  induction h with
  | refl => exact ⟨0, rfl⟩
  | tail _ hstep ih =>
    obtain ⟨n, rfl⟩ := ih
    exact ⟨n + 1, hd.reduces_unique (hf n) hstep⟩

/-- **Reductions that go on for ever** are before the end of the input, and come through the body of
the start production. -/
theorem Deterministic.ends_of_endless (hd : g.Deterministic production) (ho : g.Ordinary)
    (hopen : g.Open) (hp : g.startProduction = .ok production)
    (hf : ∀ n, g.Reduces production z (f n) (f (n + 1))) :
    z = endOfInput ∧ ∃ n p, g.production? production = some p ∧ f n = p.body.reverse ∧
      g.Valid production (f n) ⟨production, p.body.length, endOfInput⟩ := by
  obtain ⟨k, hk⟩ := hf 0
  obtain ⟨σ, hreduce, hends⟩ := Valid.exists_ends ho hopen hp hk.expectedAt
  obtain ⟨n, rfl⟩ := hd.exists_of_reduces hf hreduce
  rcases hends with hshift | ⟨hz, p, hprod, hbody, hvalid⟩
  · exact absurd hshift (hd.not_shifts (hf n))
  · exact ⟨hz, n, p, hprod, hbody, hvalid⟩

/-! ### The start production before another lookahead -/

/-- The lookahead behind the start production in place of the end of the input. -/
def underLookahead (l z : Nat) : Nat := if z = endOfInput then l else z

/-- What is valid is valid where the start production is begun once more, with the lookahead there
in place of the end of the input. -/
lemma Valid.under (ho : g.Ordinary) {τ : List Symbol} {l : Nat}
    (hl : g.Valid production τ ⟨production, 0, l⟩) {i : Item Nat} (h : g.Valid production σ i) :
    g.Valid production (σ ++ τ) ⟨i.production, i.dot, underLookahead l i.lookahead⟩ := by
  induction h with
  | start => exact hl
  | @implied σ i j _ hj ih =>
    obtain ⟨a, ha, hk, hdot, hlook⟩ := mem_implied_iff.mp hj
    obtain ⟨p, hp, rfl⟩ := mem_productionsOf_iff.mp hk
    rw [hdot]
    refine valid_begin ho ih ha hp ?_
    rcases (mem_lookaheadsBehind_iff ho).mp hlook with hcorner | ⟨hv, he⟩
    · obtain ⟨q, hq, -⟩ := Item.exists_production_of_next? ha
      have hrest : Plain (i.rest g) := by
        refine (ho.plain hq).of_subset ?_
        intro x hx
        rw [Item.body_eq_of_next? hq ha]
        simp [hx]
      rw [underLookahead, if_neg (hcorner.ne_special ho hrest).1]
      exact .inl hcorner
    · exact .inr ⟨hv, congrArg (underLookahead l) he⟩
  | advance _ hx ih => exact ih.advance hx

/-- Reductions before the end of the input are reductions before any lookahead of the start
production, where this is begun. -/
lemma Reduction.under (ho : g.Ordinary) {τ : List Symbol} {l : Nat}
    (hl : g.Valid production τ ⟨production, 0, l⟩)
    (h : g.Reduction production k endOfInput σ σ') :
    g.Reduction production k l (σ ++ τ) (σ' ++ τ) := by
  obtain ⟨p, τ', hp, hvalid, rfl, rfl⟩ := h
  exact ⟨p, τ' ++ τ, hp, Valid.under ho hl hvalid, List.append_assoc _ _ _, rfl⟩

end Grammar

end Coscript
