import Coscript.Proofs.Reduced
import Coscript.Proofs.Regrouping
import Coscript.Proofs.ValidItems
import Mathlib.Logic.Equiv.Basic

/-!
# Grammars with their productions in another order

Productions are known by their places and terminals by their numbers, so that a grammar whose
productions stand in another order is not the same grammar. It is the same one up to a **renaming**
of places and numbers. What is computed of a grammar may depend on the order in which productions,
items and states come up, but FIRST and FOLLOW sets and valid items do not: they are renamed.

* `Grammar.Renaming`: two grammars with the same productions in different places;
* `Grammar.exists_renaming`: grammars whose productions are permuted;
* `Grammar.Renaming.first`, `Grammar.Renaming.follow`: renamed FIRST and FOLLOW sets;
* `Discipline.Preserved`: disciplines whose lookaheads are renamed along;
* `Grammar.Renaming.valid_iff`: renamed items are valid for the same symbols.

Only one direction is proved of each fact, because renamings can be turned around.
-/

namespace Coscript

open Discipline

/-! ### Permuted lists -/

/-- Leaves the place `0` as it is and renames the others. -/
def renameTail (e : Nat ≃ Nat) : Nat ≃ Nat where
  toFun
    | 0 => 0
    | n + 1 => e n + 1
  invFun
    | 0 => 0
    | n + 1 => e.symm n + 1
  left_inv n := by cases n <;> simp
  right_inv n := by cases n <;> simp

/-- The places of a permuted list are renamed. -/
lemma exists_places_of_perm {α : Type} {xs ys : List α} (h : xs.Perm ys) :
    ∃ e : Nat ≃ Nat, ∀ n, ys[e n]? = xs[n]? := by
  induction h with
  | nil => exact ⟨.refl _, fun _ => rfl⟩
  | @cons x xs ys _ ih =>
    obtain ⟨e, he⟩ := ih
    refine ⟨renameTail e, fun n => ?_⟩
    cases n with
    | zero => rfl
    | succ n => exact he n
  | swap x y zs =>
    refine ⟨Equiv.swap 0 1, fun n => ?_⟩
    match n with
    | 0 => rfl
    | 1 => rfl
    | n + 2 => rw [Equiv.swap_apply_of_ne_of_ne (by omega) (by omega)]; rfl
  | trans _ _ ih₁ ih₂ =>
    obtain ⟨e₁, h₁⟩ := ih₁
    obtain ⟨e₂, h₂⟩ := ih₂
    exact ⟨e₁.trans e₂, fun n => (h₂ (e₁ n)).trans (h₁ n)⟩

namespace Grammar

/-! ### Renamings -/

/-- Two grammars with the same start, productions and terminals, up to the places of the productions
and the numbers of the terminals. -/
structure Renaming (g g' : Grammar) where
  /-- The new place of a production. -/
  place : Nat ≃ Nat
  /-- The new number of a terminal. -/
  number : Nat ≃ Nat
  start : g'.start = g.start
  production : ∀ k, g'.production? (place k) = g.production? k
  terminal : ∀ n, g'.terminal? (number n) = g.terminal? n

variable {g g' : Grammar}

/-- **Permuted productions** are a renaming. -/
theorem exists_renaming (hstart : g'.start = g.start)
    (hperm : g.productions.toList.Perm g'.productions.toList) : Nonempty (g.Renaming g') := by
  obtain ⟨place, hplace⟩ := exists_places_of_perm hperm
  have hused : ∀ t, t ∈ g.usedTerminals ↔ t ∈ g'.usedTerminals := fun t =>
    (hperm.flatMap_right _).mem_iff
  have hterminals : g.terminals.toList.Perm g'.terminals.toList := by
    refine (List.perm_ext_iff_of_nodup g.terminals.nodup_toList g'.terminals.nodup_toList).mpr ?_
    intro t
    rw [Numbering.mem_toList_iff, Numbering.mem_toList_iff]
    change (∃ n, g.terminal? n = some t) ↔ ∃ n, g'.terminal? n = some t
    rw [exists_terminal?_iff, exists_terminal?_iff, hused]
  obtain ⟨number, hnumber⟩ := exists_places_of_perm hterminals
  refine ⟨⟨place, number, hstart, fun k => ?_, fun n => ?_⟩⟩
  · have h := hplace k
    rwa [Array.getElem?_toList, Array.getElem?_toList] at h
  · have h := hnumber n
    rwa [Numbering.toList, Numbering.toList, Array.getElem?_toList, Array.getElem?_toList] at h

namespace Renaming

/-- A renaming turned around. -/
def symm (r : g.Renaming g') : g'.Renaming g where
  place := r.place.symm
  number := r.number.symm
  start := r.start.symm
  production k := by rw [← r.production, Equiv.apply_symm_apply]
  terminal n := by rw [← r.terminal, Equiv.apply_symm_apply]

variable (r : g.Renaming g')

@[simp] lemma symm_place (k : Nat) : r.symm.place (r.place k) = k := r.place.symm_apply_apply k

@[simp] lemma symm_number (n : Nat) : r.symm.number (r.number n) = n := r.number.symm_apply_apply n

@[simp] lemma number_endOfInput : r.number endOfInput = endOfInput :=
  terminal?_inj ((r.terminal _).trans g.terminal?_special.1) g'.terminal?_special.1

@[simp] lemma number_epsilon : r.number epsilon = epsilon :=
  terminal?_inj ((r.terminal _).trans g.terminal?_special.2) g'.terminal?_special.2

/-- Terminals have their new numbers. -/
lemma terminalNumber? {t : Terminal} {n : Nat} (h : g.terminalNumber? t = some n) :
    g'.terminalNumber? t = some (r.number n) := by
  rw [terminalNumber?_eq_some_iff] at h ⊢
  rw [r.terminal, h]

/-- The productions of a name are in their new places. -/
lemma mem_productionsOf {a : String} {k : Nat} :
    r.place k ∈ g'.productionsOf a ↔ k ∈ g.productionsOf a := by
  rw [mem_productionsOf_iff, mem_productionsOf_iff, r.production]

lemma mem_names (r : g.Renaming g') {a : String} (h : a ∈ g.names) : a ∈ g'.names := by
  obtain ⟨k, p, hp, hname⟩ := mem_names_iff.mp h
  exact mem_names_iff.mpr ⟨r.place k, p, (r.production k).trans hp, hname⟩

/-! ### FIRST sets -/

/-- Sets with the renamed terminals of other sets, and maybe more. -/
def Carries (s s' : TerminalSets) : Prop := ∀ a, ∀ n ∈ s.of a, r.number n ∈ s'.of a

variable {r}

/-- What may begin a sequence of symbols is carried along. -/
lemma Carries.leading {s s' : TerminalSets} (h : r.Carries s s') (hkeys : ∀ a ∈ s.keys, a ∈ s'.keys)
    (ss : List Symbol) :
    (∀ n ∈ (g.leading s ss).terminals, r.number n ∈ (g'.leading s' ss).terminals) ∧
      ((g.leading s ss).ending = .vanishes → (g'.leading s' ss).ending = .vanishes) := by
  induction ss with
  | nil => exact ⟨fun n hn => absurd hn (IdSet.not_mem_empty n), fun _ => rfl⟩
  | cons x ss ih =>
    cases x with
    | terminal t =>
      rw [Grammar.leading, Grammar.leading]
      cases ht : g.terminalNumber? t with
      | none => exact ⟨fun n hn => absurd hn (IdSet.not_mem_empty n), fun he => by cases he⟩
      | some n =>
        rw [r.terminalNumber? ht]
        refine ⟨fun m hm => ?_, fun he => by cases he⟩
        rcases IdSet.mem_insert.mp hm with rfl | hm
        · exact IdSet.mem_insert.mpr (.inl rfl)
        · exact absurd hm (IdSet.not_mem_empty m)
    | nonTerminal a =>
      by_cases ha : a ∈ s.keys
      · obtain ⟨hmem, hend⟩ := leading_nonTerminal (g := g) ha ss
        obtain ⟨hmem', hend'⟩ := leading_nonTerminal (g := g') (hkeys a ha) ss
        have hepsilon : epsilon ∈ s.of a → epsilon ∈ s'.of a := fun he => by
          have := h a epsilon he
          rwa [r.number_epsilon] at this
        refine ⟨fun n hn => (hmem' _).mpr ?_, fun he => hend'.mpr ?_⟩
        · rcases (hmem n).mp hn with ⟨hn, hne⟩ | ⟨he, hn⟩
          · refine .inl ⟨h a n hn, fun heq => hne ?_⟩
            rw [← r.number_epsilon] at heq
            exact r.number.injective heq
          · exact .inr ⟨hepsilon he, ih.1 n hn⟩
        · obtain ⟨he, hvanish⟩ := hend.mp he
          exact ⟨hepsilon he, ih.2 hvanish⟩
      · rw [Grammar.leading, OrderedMap.get?_eq_none_iff.mpr ha]
        exact ⟨fun n hn => absurd hn (IdSet.not_mem_empty n), fun he => by cases he⟩

/-- What a production demands is carried along. -/
lemma Carries.firstDemand {s s' : TerminalSets} (h : r.Carries s s')
    (hkeys : ∀ a ∈ s.keys, a ∈ s'.keys) {p : Production} {n : Nat} (hn : n ∈ g.firstDemand s p) :
    r.number n ∈ g'.firstDemand s' p := by
  obtain ⟨hmem, hend⟩ := h.leading hkeys p.body
  -- Leading terminals are demanded, whether the body can vanish or not.
  have hleading : ∀ m ∈ (g'.leading s' p.body).terminals, m ∈ g'.firstDemand s' p := by
    intro m hm
    unfold Grammar.firstDemand
    dsimp only
    split
    · exact IdSet.mem_insert.mpr (.inr hm)
    · exact hm
  unfold Grammar.firstDemand at hn
  dsimp only at hn
  split at hn
  · next hvanish =>
    rcases IdSet.mem_insert.mp hn with rfl | hn
    · rw [r.number_epsilon, Grammar.firstDemand, if_pos (hend hvanish)]
      exact IdSet.mem_insert.mpr (.inl rfl)
    · exact hleading _ (hmem n hn)
  · exact hleading _ (hmem n hn)

lemma mem_keys_first {s : TerminalSets} {bound : Nat} (h : s.Within g.names bound)
    (r : g.Renaming g') {a : String} (ha : a ∈ s.keys) : a ∈ g'.firstSets.1.keys := by
  rw [h.keys_eq] at ha
  rw [g'.firstSets_closed.within.keys_eq]
  exact r.mem_names ha

/-- The FIRST sets are carried along. -/
lemma carries_first (r : g.Renaming g') : r.Carries g.firstSets.1 g'.firstSets.1 := by
  have hnone := TerminalSets.within_none g.nodup_names g.terminals.size
  refine (@settle_invariant g.firstPass (fun s =>
    s.Within g.names g.terminals.size ∧ r.Carries s g'.firstSets.1) (fun s hs => ?_) _ _
    ⟨hnone, fun a n hn => ?_⟩).2
  · refine foldl_invariant (P := fun t =>
      t.Within g.names g.terminals.size ∧ r.Carries t g'.firstSets.1) hs fun t p hp ht => ?_
    refine ⟨ht.1.grow (lt_of_mem_firstDemand ht.1), fun a n hn => ?_⟩
    rcases TerminalSets.mem_of_mem_grow hn with hold | ⟨rfl, hnew⟩
    · exact ht.2 a n hold
    · obtain ⟨k, hk⟩ := List.mem_iff_getElem?.mp hp
      rw [Array.getElem?_toList] at hk
      exact g'.firstSets_closed.demand (r.place k) p ((r.production k).trans hk) _
        (ht.2.firstDemand (fun _ => mem_keys_first ht.1 r) hnew)
  · have := (TerminalSets.within_none g.nodup_names 0).lt a n hn
    omega

/-- **The FIRST sets are renamed.** -/
theorem first (r : g.Renaming g') {a : String} {n : Nat} :
    r.number n ∈ g'.firstFollow.first.of a ↔ n ∈ g.firstFollow.first.of a := by
  constructor
  · intro h
    have := r.symm.carries_first a _ h
    rwa [r.symm_number] at this
  · exact fun h => r.carries_first a n h

/-- What may begin symbols is carried along from FIRST sets to FIRST sets. -/
lemma leading_first (r : g.Renaming g') (ss : List Symbol) :
    (∀ n ∈ (g.leading g.firstFollow.first ss).terminals,
      r.number n ∈ (g'.leading g'.firstFollow.first ss).terminals) ∧
      ((g.leading g.firstFollow.first ss).ending = .vanishes →
        (g'.leading g'.firstFollow.first ss).ending = .vanishes) :=
  r.carries_first.leading (fun _ => mem_keys_first g.firstSets_closed.within r) ss

/-! ### FOLLOW sets -/

/-- What a name takes into its FOLLOW set is carried along. -/
lemma Carries.followDemand {s : TerminalSets} (h : r.Carries s g'.firstFollow.follow) {k : Nat}
    {p : Production} (hp : g.production? k = some p) {α β : List Symbol} {a : String}
    (hbody : p.body = α ++ .nonTerminal a :: β) {n : Nat}
    (hn : n ∈ g.followDemand g.firstFollow.first p.name β s) :
    r.number n ∈ g'.firstFollow.follow.of a := by
  have hp' := (r.production k).trans hp
  obtain ⟨hmem, hend⟩ := r.leading_first β
  have hclosed := g'.firstFollow_closed.2
  unfold Grammar.followDemand at hn
  dsimp only at hn
  split at hn
  · next hvanish =>
    rcases IdSet.mem_union.mp hn with hn | hn
    · exact hclosed.leading _ p hp' α _ β hbody _ (hmem n hn)
    · exact hclosed.vanishing _ p hp' α _ β hbody (hend hvanish) _ (h p.name n hn)
  · exact hclosed.leading _ p hp' α _ β hbody _ (hmem n hn)

/-- The FOLLOW sets are carried along. -/
lemma carries_follow (r : g.Renaming g') :
    r.Carries g.firstFollow.follow g'.firstFollow.follow := by
  have heq : g.firstFollow.follow = (g.followSets g.firstFollow.first).1 := rfl
  rw [heq]
  refine followSets_induction (Q := fun a n => r.number n ∈ g'.firstFollow.follow.of a) ?_ ?_
  · rw [r.number_endOfInput, ← r.start]
    exact g'.firstFollow_closed.2.start
  · intro s h k p hp α a β hbody n hn
    exact Carries.followDemand h hp hbody hn

/-- **The FOLLOW sets are renamed.** -/
theorem follow (r : g.Renaming g') {a : String} {n : Nat} :
    r.number n ∈ g'.firstFollow.follow.of a ↔ n ∈ g.firstFollow.follow.of a := by
  constructor
  · intro h
    have := r.symm.carries_follow a _ h
    rwa [r.symm_number] at this
  · exact fun h => r.carries_follow a n h

/-! ### Items -/

variable {L : Type}

/-- An item with its production in its new place, and a renamed lookahead. -/
def item (r : g.Renaming g') (φ : L → L) (i : Item L) : Item L :=
  ⟨r.place i.production, i.dot, φ i.lookahead⟩

@[simp] lemma next?_item (r : g.Renaming g') (φ : L → L) (i : Item L) :
    (r.item φ i).next? g' = i.next? g := by
  rw [Item.next?, item, r.production, Item.next?]

@[simp] lemma rest_item (r : g.Renaming g') (φ : L → L) (i : Item L) :
    (r.item φ i).rest g' = i.rest g := by
  rw [Item.rest, item, r.production, Item.rest]

end Renaming

end Grammar

/-! ### Lookaheads -/

namespace Discipline

variable {L : Type} {g g' : Grammar} {d : Discipline L} {r : g.Renaming g'} {φ : L → L}

/-- A discipline works on renamed items as it does on the items, with renamed lookaheads. -/
structure Preserved (d : Discipline L) (r : g.Renaming g') (φ : L → L) : Prop where
  start : φ d.start = d.start
  spread : ∀ i, ∀ l ∈ d.spread g g.firstFollow i, φ l ∈ d.spread g' g'.firstFollow (r.item φ i)
  reduceOn : ∀ i, ∀ n ∈ d.reduceOn g g.firstFollow i,
    r.number n ∈ d.reduceOn g' g'.firstFollow (r.item φ i)

/-- Without lookaheads, complete items reduce on renamed FOLLOW sets. -/
lemma preserved_plain (r : g.Renaming g') : plain.Preserved r id where
  start := rfl
  spread _ _ hl := hl
  reduceOn i n hn := by
    simp only [plain] at hn ⊢
    rw [Grammar.Renaming.item, r.production]
    cases hp : g.production? i.production with
    | none =>
      rw [hp] at hn
      cases hn
    | some p =>
      rw [hp] at hn
      exact r.follow.mpr hn

/-- With lookaheads, these are renamed like all terminals. -/
lemma preserved_canonical (r : g.Renaming g') : canonical.Preserved r r.number where
  start := r.number_endOfInput
  spread i n hn := by
    obtain ⟨hmem, hend⟩ := r.leading_first (i.rest g)
    -- Leading terminals are lookaheads, whether the symbols can vanish or not.
    have hleading : ∀ m ∈ (g'.leading g'.firstFollow.first (i.rest g)).terminals,
        m ∈ lookaheadsBehind g' g'.firstFollow (r.item r.number i) := by
      intro m hm
      unfold lookaheadsBehind
      rw [r.rest_item]
      dsimp only
      split
      · exact IdSet.mem_insert.mpr (.inr hm)
      · exact hm
    have hn : n ∈ lookaheadsBehind g g.firstFollow i := hn
    change r.number n ∈ lookaheadsBehind g' g'.firstFollow (r.item r.number i)
    unfold lookaheadsBehind at hn
    dsimp only at hn
    split at hn
    · next hvanish =>
      rcases IdSet.mem_insert.mp hn with rfl | hn
      · unfold lookaheadsBehind
        rw [r.rest_item]
        dsimp only
        rw [if_pos (hend hvanish)]
        exact IdSet.mem_insert.mpr (.inl rfl)
      · exact hleading _ (hmem n hn)
    · exact hleading _ (hmem n hn)
  reduceOn i n hn := by
    rw [List.mem_singleton.mp hn]
    exact List.mem_singleton_self _

/-- Valid items are carried along. -/
theorem Valid.item (hd : d.Preserved r φ) {production : Nat} {σ : List Symbol} {i : Item L}
    (h : d.Valid g g.firstFollow production σ i) :
    d.Valid g' g'.firstFollow (r.place production) σ (r.item φ i) := by
  induction h with
  | start =>
    have hstart : r.item φ (d.startItem production) = d.startItem (r.place production) := by
      rw [Grammar.Renaming.item, startItem, hd.start]
      rfl
    rw [hstart]
    exact .start
  | @implied σ i j _ hj ih =>
    obtain ⟨a, ha, hp, hdot, hl⟩ := mem_implied_iff.mp hj
    refine ih.implied (mem_implied_iff.mpr ⟨a, ?_, r.mem_productionsOf.mpr hp, hdot, ?_⟩)
    · rw [r.next?_item, ha]
    · exact hd.spread i _ hl
  | @advance σ i x _ hx ih =>
    refine ih.advance (x := x) ?_
    rw [r.next?_item, hx]

end Discipline

end Coscript
