import Coscript.Automaton.Closure
import Coscript.Proofs.FirstFollow
import Mathlib.Logic.Relation

/-!
# Closures are closed and nothing else

The closure of an item holds the items that it reaches by implications, and no others. The search
for it takes up one found number at a time; the numbers already taken up have all their implied
items among the found ones, so that a search with nothing left to take up is done. Its fuel suffices
because every step takes up a new number, and the items that can be found are as many as the bound
says.

* `Discipline.Reaches`: the items that an item reaches by implications;
* `LookaheadBound`: how many lookaheads the implied items can have;
* `Search.run_spec`: what every run of a search keeps, and how far it comes;
* `Search.run_seeded`: the search for the closure of an item ends;
* `ClosureCache.closureOf_spec`, `ClosureCache.closureAlong_spec`, `ClosureCache.closure_spec`: the
  closures of an item, of several ones in some order, and of a set.
-/

namespace Coscript

open Relation

variable {L : Type}

namespace Discipline

/-- The items that an item reaches by implications. -/
def Reaches (d : Discipline L) (g : Grammar) (s : FirstFollow) : Item L → Item L → Prop :=
  ReflTransGen fun i j => j ∈ d.implied g s i

variable {d : Discipline L} {g : Grammar} {s : FirstFollow}

/-- The items that an item implies are the beginnings of productions of the name after its dot. -/
theorem mem_implied_iff {i j : Item L} : j ∈ d.implied g s i ↔
    ∃ a, i.next? g = some (.nonTerminal a) ∧ j.production ∈ g.productionsOf a ∧ j.dot = 0 ∧
      j.lookahead ∈ d.spread g s i := by
  unfold implied
  split
  · next a ha =>
    simp only [ha, List.mem_flatMap, List.mem_map, Option.some.injEq, Symbol.nonTerminal.injEq,
      exists_eq_left']
    constructor
    · rintro ⟨p, hp, l, hl, rfl⟩
      exact ⟨hp, rfl, hl⟩
    · rintro ⟨hp, hdot, hl⟩
      refine ⟨_, hp, _, hl, ?_⟩
      rw [← hdot]
  · next h =>
    simp only [List.not_mem_nil, false_iff]
    rintro ⟨a, ha, -⟩
    exact h a ha

/-- Without lookaheads a complete item reduces on what may follow its name. -/
lemma mem_reduceOn_plain {i : Item Unit} {p : Production} (hp : g.production? i.production = some p)
    {n : Nat} : n ∈ plain.reduceOn g s i ↔ n ∈ s.follow.of p.name := by
  simp only [plain, hp]
  exact Iff.rfl

end Discipline

/-- A bound for the lookaheads of the items that are reached from an item. -/
structure LookaheadBound (d : Discipline L) (g : Grammar) (s : FirstFollow) where
  /-- The lookaheads that may be reached from a lookahead. -/
  lookaheads : L → Finset L
  self : ∀ l, l ∈ lookaheads l
  card_le : ∀ l, (lookaheads l).card ≤ d.breadth g
  spread : ∀ i : Item L, ∀ l ∈ d.spread g s i, l ∈ lookaheads i.lookahead
  trans : ∀ {k l m : L}, l ∈ lookaheads m → k ∈ lookaheads l → k ∈ lookaheads m

namespace LookaheadBound

variable {d : Discipline L} {g : Grammar} {s : FirstFollow}

/-- An item that is reached is the first one or the beginning of a production. -/
theorem reaches (b : LookaheadBound d g s) {i j : Item L} (h : d.Reaches g s i j) :
    j = i ∨
      j.production < g.productions.size ∧ j.dot = 0 ∧ j.lookahead ∈ b.lookaheads i.lookahead := by
  induction h with
  | refl => exact .inl rfl
  | @tail j k _ hk ih =>
    obtain ⟨a, -, hp, hdot, hl⟩ := Discipline.mem_implied_iff.mp hk
    obtain ⟨p, hp, -⟩ := Grammar.mem_productionsOf_iff.mp hp
    have hlt := (Array.getElem?_eq_some_iff.mp hp).1
    have hl := b.spread j _ hl
    rcases ih with rfl | ⟨-, -, hj⟩
    · exact .inr ⟨hlt, hdot, hl⟩
    · exact .inr ⟨hlt, hdot, b.trans hj hl⟩

/-- Items without lookaheads have one lookahead. -/
def plain (g : Grammar) (s : FirstFollow) : LookaheadBound .plain g s where
  lookaheads _ := {()}
  self _ := by simp
  card_le _ := by simp [Discipline.plain]
  spread _ _ _ := by simp
  trans _ _ := by simp

/-- Items with a terminal of lookahead have one of the numbered terminals, or the one begun with. -/
def canonical (g : Grammar) : LookaheadBound .canonical g g.firstFollow where
  lookaheads l := insert l (Finset.range g.terminals.size)
  self l := Finset.mem_insert_self _ _
  card_le l := (Finset.card_insert_le _ _).trans (by simp [Discipline.canonical])
  spread i l hl := by
    have hl : l ∈ Discipline.lookaheadsBehind g g.firstFollow i := hl
    unfold Discipline.lookaheadsBehind at hl
    dsimp only at hl
    have hlt := Grammar.lt_of_mem_leading g.firstFollow_closed.1.within (i.rest g) l
    split at hl
    · rcases IdSet.mem_insert.mp hl with rfl | hl
      · exact Finset.mem_insert_self _ _
      · exact Finset.mem_insert_of_mem (Finset.mem_range.mpr (hlt hl))
    · exact Finset.mem_insert_of_mem (Finset.mem_range.mpr (hlt hl))
  trans hl hk := by
    simp only [Finset.mem_insert, Finset.mem_range] at hl hk ⊢
    rcases hk with rfl | hk
    · exact hl
    · exact .inr hk

end LookaheadBound

variable [DecidableEq L] [Hashable L]

/-! ### Numbers of items -/

/-- A set of numbers lists the items with a property. -/
structure Numbering.Lists (items : Numbering (Item L)) (found : IdSet) (P : Item L → Prop) :
    Prop where
  sound : ∀ n ∈ found, ∃ i, items.get? n = some i ∧ P i
  complete : ∀ i, P i → ∃ n ∈ found, items.get? n = some i

namespace Numbering.Lists

variable {items items' : Numbering (Item L)} {found : IdSet} {P Q : Item L → Prop}

lemma extend (h : items.Lists found P) (hx : items.Extends items') : items'.Lists found P where
  sound n hn := by
    obtain ⟨i, hi, hp⟩ := h.sound n hn
    exact ⟨i, hx n i hi, hp⟩
  complete i hi := by
    obtain ⟨n, hn, hin⟩ := h.complete i hi
    exact ⟨n, hn, hx n i hin⟩

lemma congr (h : items.Lists found P) (hpq : ∀ i, P i ↔ Q i) : items.Lists found Q where
  sound n hn := by
    obtain ⟨i, hi, hp⟩ := h.sound n hn
    exact ⟨i, hi, (hpq i).mp hp⟩
  complete i hi := h.complete i ((hpq i).mpr hi)

lemma union {found' : IdSet} (h : items.Lists found P) (h' : items.Lists found' Q) :
    items.Lists (found.union found') fun i => P i ∨ Q i where
  sound n hn := by
    rcases IdSet.mem_union.mp hn with hn | hn
    · obtain ⟨i, hi, hp⟩ := h.sound n hn
      exact ⟨i, hi, .inl hp⟩
    · obtain ⟨i, hi, hq⟩ := h'.sound n hn
      exact ⟨i, hi, .inr hq⟩
  complete i hi := by
    rcases hi with hi | hi
    · obtain ⟨n, hn, hin⟩ := h.complete i hi
      exact ⟨n, IdSet.mem_union.mpr (.inl hn), hin⟩
    · obtain ⟨n, hn, hin⟩ := h'.complete i hi
      exact ⟨n, IdSet.mem_union.mpr (.inr hn), hin⟩

lemma insert (h : items.Lists found P) {n : Nat} {j : Item L} (hn : items.get? n = some j) :
    items.Lists (found.insert n) fun i => P i ∨ i = j where
  sound m hm := by
    rcases IdSet.mem_insert.mp hm with rfl | hm
    · exact ⟨j, hn, .inr rfl⟩
    · obtain ⟨i, hi, hp⟩ := h.sound m hm
      exact ⟨i, hi, .inl hp⟩
  complete i hi := by
    rcases hi with hi | rfl
    · obtain ⟨m, hm, him⟩ := h.complete i hi
      exact ⟨m, IdSet.mem_insert.mpr (.inr hm), him⟩
    · exact ⟨n, IdSet.mem_insert.mpr (.inl rfl), hn⟩

lemma nothing (items : Numbering (Item L)) : items.Lists ∅ fun _ => False where
  sound n hn := absurd hn (IdSet.not_mem_empty n)
  complete _ h := h.elim

lemma mem_iff (h : items.Lists found P) {n : Nat} {i : Item L} (hi : items.get? n = some i) :
    n ∈ found ↔ P i := by
  constructor
  · intro hn
    obtain ⟨j, hj, hp⟩ := h.sound n hn
    rw [hi] at hj
    cases hj
    exact hp
  · intro hp
    obtain ⟨m, hm, him⟩ := h.complete i hp
    rwa [Numbering.get?_inj hi him]

/-- The items with a property are listed by one set of numbers. -/
lemma unique {found' : IdSet} (h : items.Lists found P) (h' : items.Lists found' P) :
    found = found' := by
  refine IdSet.ext fun n => ⟨fun hn => ?_, fun hn => ?_⟩
  · obtain ⟨i, hi, hp⟩ := h.sound n hn
    exact (h'.mem_iff hi).mpr hp
  · obtain ⟨i, hi, hp⟩ := h'.sound n hn
    exact (h.mem_iff hi).mpr hp

end Numbering.Lists

/-! ### The search -/

namespace Search

variable {d : Discipline L} {g : Grammar} {s : FirstFollow}

/-- What a search keeps from one state to a later one. -/
structure Progress (w w' : Search L) : Prop where
  items : w.items.Extends w'.items
  found : ∀ n ∈ w.found, n ∈ w'.found
  numbered : ∀ n i, w'.items.get? n = some i → w.items.get? n = some i ∨ n ∈ w'.found

lemma Progress.refl (w : Search L) : Progress w w := ⟨.refl _, fun _ => id, fun _ _ => .inl⟩

lemma Progress.trans {w w' w'' : Search L} (h : Progress w w') (k : Progress w' w'') :
    Progress w w'' where
  items := h.items.trans k.items
  found n hn := k.found n (h.found n hn)
  numbered n i hi := by
    rcases k.numbered n i hi with hi | hn
    · rcases h.numbered n i hi with hi | hn
      · exact .inl hi
      · exact .inr (k.found n hn)
    · exact .inr hn

/-- How items are added: what is found anew is left to be taken up. -/
structure Grows (w w' : Search L) : Prop extends Progress w w' where
  fresh : ∀ n ∈ w'.found, n ∈ w.found ∨ n ∈ w'.pending
  kept : ∀ n ∈ w.pending, n ∈ w'.pending
  count : w'.found.size + w.pending.length = w.found.size + w'.pending.length

lemma Grows.refl (w : Search L) : Grows w w := ⟨.refl w, fun _ => .inl, fun _ => id, rfl⟩

lemma Grows.trans {w w' w'' : Search L} (h : Grows w w') (k : Grows w' w'') : Grows w w'' where
  toProgress := h.toProgress.trans k.toProgress
  fresh n hn := by
    rcases k.fresh n hn with hn | hn
    · rcases h.fresh n hn with hn | hn
      · exact .inl hn
      · exact .inr (k.kept n hn)
    · exact .inr hn
  kept n hn := k.kept n (h.kept n hn)
  count := by
    have := h.count
    have := k.count
    omega

/-- What a search has found is numbered, and reached from the item that the search is for; what is
left to be taken up is found. -/
structure Sound (d : Discipline L) (g : Grammar) (s : FirstFollow) (i : Item L)
    (w : Search L) : Prop where
  found : ∀ n ∈ w.found, ∃ j, w.items.get? n = some j ∧ d.Reaches g s i j
  pending : ∀ n ∈ w.pending, n ∈ w.found
  nodup : w.pending.Nodup

/-- Adding an item finds it and keeps the rest. -/
lemma add_spec {i j : Item L} {w : Search L} (h : w.Sound d g s i) (hj : d.Reaches g s i j) :
    (w.add j).Sound d g s i ∧ Grows w (w.add j) ∧
      ∃ n ∈ (w.add j).found, (w.add j).items.get? n = some j := by
  have hin := Numbering.get?_insert_snd w.items j
  have hext := Numbering.extends_insert w.items j
  have hiff := fun n k => Numbering.get?_insert_iff (s := w.items) (x := j) (n := n) (y := k)
  have hadd : w.add j = if (w.items.insert j).2 ∈ w.found then
      { w with items := (w.items.insert j).1 }
    else ⟨(w.items.insert j).1, w.found.insert (w.items.insert j).2,
      (w.items.insert j).2 :: w.pending⟩ := rfl
  have hfound : ∀ n ∈ w.found, ∃ k, (w.items.insert j).1.get? n = some k ∧ d.Reaches g s i k :=
    fun n hn => by
      obtain ⟨k, hk, hr⟩ := h.found n hn
      exact ⟨k, hext n k hk, hr⟩
  rw [hadd]
  split
  · next hmem =>
    refine ⟨⟨hfound, h.pending, h.nodup⟩, ⟨⟨hext, fun _ => id, fun n k hk => ?_⟩, fun _ => .inl,
      fun _ => id, rfl⟩, _, hmem, hin⟩
    rcases (hiff n k).mp hk with hk | ⟨rfl, -⟩
    · exact .inl hk
    · exact .inr hmem
  · next hnew =>
    have hself := IdSet.mem_insert (s := w.found).mpr (.inl (Eq.refl (w.items.insert j).2))
    refine ⟨⟨fun n hn => ?_, fun n hn => ?_, ?_⟩, ⟨⟨hext, fun n hn => ?_, fun n k hk => ?_⟩,
      fun n hn => ?_, fun n hn => List.mem_cons_of_mem _ hn, ?_⟩, _, hself, hin⟩
    · rcases IdSet.mem_insert.mp hn with rfl | hn
      · exact ⟨j, hin, hj⟩
      · exact hfound n hn
    · rcases List.mem_cons.mp hn with rfl | hn
      · exact hself
      · exact IdSet.mem_insert.mpr (.inr (h.pending n hn))
    · exact List.nodup_cons.mpr ⟨fun hp => hnew (h.pending _ hp), h.nodup⟩
    · exact IdSet.mem_insert.mpr (.inr hn)
    · rcases (hiff n k).mp hk with hk | ⟨rfl, -⟩
      · exact .inl hk
      · exact .inr hself
    · rcases IdSet.mem_insert.mp hn with rfl | hn
      · exact .inr List.mem_cons_self
      · exact .inl hn
    · simp only [IdSet.size_insert hnew, List.length_cons]
      omega

/-- Adding items finds each of them and keeps the rest. -/
lemma addAll_spec {i : Item L} {js : List (Item L)} {w : Search L} (h : w.Sound d g s i)
    (hjs : ∀ j ∈ js, d.Reaches g s i j) :
    (js.foldl add w).Sound d g s i ∧ Grows w (js.foldl add w) ∧
      ∀ j ∈ js, ∃ n ∈ (js.foldl add w).found, (js.foldl add w).items.get? n = some j := by
  induction js generalizing w with
  | nil => exact ⟨h, .refl w, by simp⟩
  | cons j js ih =>
    obtain ⟨hs, hg, n, hn, hj⟩ := add_spec h (hjs j (by simp))
    obtain ⟨hs', hg', hfound⟩ := ih hs fun k hk => hjs k (by simp [hk])
    rw [List.foldl_cons]
    refine ⟨hs', hg.trans hg', fun k hk => ?_⟩
    rcases List.mem_cons.mp hk with rfl | hk
    · exact ⟨n, hg'.found n hn, hg'.items n _ hj⟩
    · exact hfound k hk

/-- A found number that has been taken up has its implied items among the found ones. -/
structure Invariant (d : Discipline L) (g : Grammar) (s : FirstFollow) (i : Item L)
    (w : Search L) : Prop extends w.Sound d g s i where
  taken : ∀ n ∈ w.found, n ∉ w.pending → ∀ j, w.items.get? n = some j →
    ∀ k ∈ d.implied g s j, ∃ m ∈ w.found, w.items.get? m = some k

/-- Taking up a number keeps the invariant and uses the number up. -/
theorem step_spec {i : Item L} {w : Search L} (h : w.Invariant d g s i) (hp : w.pending ≠ []) :
    (w.step d g s).Invariant d g s i ∧ Progress w (w.step d g s) ∧
      (w.step d g s).found.size + w.pending.length =
        w.found.size + (w.step d g s).pending.length + 1 := by
  obtain ⟨n, rest, hpending⟩ := List.exists_cons_of_ne_nil hp
  have hn : n ∈ w.found := h.pending n (by simp [hpending])
  obtain ⟨j, hj, hr⟩ := h.found n hn
  obtain ⟨hnrest, hnodup⟩ := List.nodup_cons.mp (hpending ▸ h.nodup)
  have hstep : w.step d g s = (d.implied g s j).foldl add { w with pending := rest } := by
    unfold step
    rw [hpending]
    simp only [hj]
  have hs : Sound d g s i { w with pending := rest } :=
    ⟨h.found, fun m hm => h.pending m (by simp [hpending, hm]), hnodup⟩
  obtain ⟨hs', hg, himplied⟩ := addAll_spec hs fun k hk => hr.tail hk
  rw [hstep]
  refine ⟨⟨hs', fun m hm hmp k hk l hl => ?_⟩, ⟨hg.items, hg.found, hg.numbered⟩, ?_⟩
  · rcases hg.fresh m hm with hm | hm
    · by_cases hmn : m = n
      · subst hmn
        rw [hg.items m j hj] at hk
        cases hk
        exact himplied l hl
      · have hmw : m ∉ w.pending := by
          rw [hpending, List.mem_cons, not_or]
          exact ⟨hmn, fun h => hmp (hg.kept m h)⟩
        obtain ⟨k', hk', -⟩ := h.found m hm
        cases (hg.items m k' hk').symm.trans hk
        obtain ⟨x, hx, hxl⟩ := h.taken m hm hmw k hk' l hl
        exact ⟨x, hg.found x hx, hg.items x l hxl⟩
    · exact absurd hm hmp
  · have := hg.count
    dsimp only at this
    rw [hpending, List.length_cons]
    omega

/-- A run keeps the invariant, and either nothing is left to be taken up or as many numbers as
there was fuel have been. -/
theorem run_spec {i : Item L} (fuel : Nat) {w : Search L} (h : w.Invariant d g s i) :
    (run d g s fuel w).Invariant d g s i ∧ Progress w (run d g s fuel w) ∧
      ((run d g s fuel w).pending = [] ∨
        w.found.size + (run d g s fuel w).pending.length + fuel ≤
          (run d g s fuel w).found.size + w.pending.length) := by
  induction fuel generalizing w with
  | zero => exact ⟨h, .refl w, .inr (by simp [run])⟩
  | succ fuel ih =>
    rw [run]
    by_cases hp : w.pending = []
    · simp only [hp, List.isEmpty_nil, if_true]
      exact ⟨h, .refl w, .inl trivial⟩
    · have hne : w.pending.isEmpty = false := by simpa using hp
      simp only [hne, Bool.false_eq_true, if_false]
      obtain ⟨hs, hgo, hcount⟩ := step_spec h hp
      obtain ⟨hrun, hgo', hend⟩ := ih hs
      refine ⟨hrun, hgo.trans hgo', ?_⟩
      rcases hend with hend | hend
      · exact .inl hend
      · exact .inr (by omega)

/-- The numbers found are at most as many as items can be reached. -/
lemma size_found_le (b : LookaheadBound d g s) {i : Item L} {w : Search L}
    (h : w.Sound d g s i) : w.found.size ≤ ClosureCache.closureBound d g := by
  let candidates : Finset (Item L) :=
    insert i ((Finset.range g.productions.size ×ˢ b.lookaheads i.lookahead).image
      fun e => ⟨e.1, 0, e.2⟩)
  have hcard : candidates.card ≤ ClosureCache.closureBound d g := by
    refine (Finset.card_insert_le _ _).trans (Nat.succ_le_succ (Finset.card_image_le.trans ?_))
    rw [Finset.card_product, Finset.card_range]
    exact Nat.mul_le_mul_left _ (b.card_le _)
  refine le_trans ?_ hcard
  rw [IdSet.size, ← List.toFinset_card_of_nodup w.found.nodup_toList]
  refine Finset.card_le_card_of_injOn (fun n => (w.items.get? n).getD i) ?_ ?_
  · intro n hn
    obtain ⟨j, hj, hr⟩ := h.found n (List.mem_toFinset.mp hn)
    simp only [hj, Option.getD_some, candidates, Finset.coe_insert, Set.mem_insert_iff,
      Finset.mem_coe, Finset.mem_image, Finset.mem_product, Finset.mem_range, Prod.exists]
    rcases b.reaches hr with rfl | ⟨hp, hdot, hl⟩
    · exact .inl rfl
    · refine .inr ⟨j.production, j.lookahead, ⟨hp, hl⟩, ?_⟩
      rw [← hdot]
  · intro m hm n hn he
    obtain ⟨j, hj, -⟩ := h.found m (List.mem_toFinset.mp hm)
    obtain ⟨k, hk, -⟩ := h.found n (List.mem_toFinset.mp hn)
    simp only [hj, hk, Option.getD_some] at he
    subst he
    exact Numbering.get?_inj hj hk

/-- The search for the closure of the item with a number, before its first step. -/
def seeded (items : Numbering (Item L)) (n : Nat) : Search L := ⟨items, IdSet.insert ∅ n, [n]⟩

/-- **The search for the closure of a numbered item ends**, and finds what the item reaches. -/
theorem run_seeded (b : LookaheadBound d g s) {items : Numbering (Item L)} {n : Nat} {i : Item L}
    (hn : items.get? n = some i) :
    let w := run d g s (ClosureCache.closureBound d g) (seeded items n)
    w.pending = [] ∧ Progress (seeded items n) w ∧ w.items.Lists w.found (d.Reaches g s i) := by
  have hself : n ∈ (seeded items n).found := IdSet.mem_insert.mpr (.inl rfl)
  have honly : ∀ m ∈ (seeded items n).found, m = n := fun m hm => by
    rcases IdSet.mem_insert.mp hm with rfl | hm
    · rfl
    · exact absurd hm (IdSet.not_mem_empty m)
  have hstart : Invariant d g s i (seeded items n) := by
    refine ⟨⟨fun m hm => ?_, fun m hm => ?_, List.nodup_singleton n⟩, fun m hm hmp => ?_⟩
    · rw [honly m hm]
      exact ⟨i, hn, .refl⟩
    · rwa [List.mem_singleton.mp hm]
    · exact absurd (List.mem_singleton.mpr (honly m hm)) hmp
  intro w
  obtain ⟨hrun, hgo, hend⟩ : w.Invariant d g s i ∧ Progress (seeded items n) w ∧ _ :=
    run_spec (ClosureCache.closureBound d g) hstart
  have hdone : w.pending = [] := by
    rcases hend with hend | hend
    · exact hend
    · have hle : w.found.size ≤ _ := size_found_le b hrun.toSound
      have hone : (seeded items n).found.size = (seeded items n).pending.length := rfl
      change _ + w.pending.length + _ ≤ w.found.size + _ at hend
      exact List.eq_nil_of_length_eq_zero (by omega)
  refine ⟨hdone, hgo, hrun.found, fun j hj => ?_⟩
  induction hj with
  | refl => exact ⟨n, hgo.found n hself, hgo.items n i hn⟩
  | tail _ hk ih =>
    obtain ⟨m, hm, hj⟩ := ih
    exact hrun.taken m hm (by simp [hdone]) _ hj _ hk

end Search

/-! ### Closures -/

namespace ClosureCache

variable {d : Discipline L} {g : Grammar} {s : FirstFollow}

/-- The closures that are known are those of numbered items. -/
def Valid (d : Discipline L) (g : Grammar) (s : FirstFollow) (c : ClosureCache L) : Prop :=
  ∀ n closure, c.known[n]? = some closure →
    ∃ i, c.items.get? n = some i ∧ c.items.Lists closure (d.Reaches g s i)

lemma valid_empty : (empty : ClosureCache L).Valid d g s := fun n closure hn => by
  have : (∅ : Std.TreeMap Nat IdSet)[n]? = some closure := hn
  simp at this

lemma Valid.store {c : ClosureCache L} (hc : c.Valid d g s) (i : Item L) :
    (c.store i).1.Valid d g s := fun n closure hn => by
  obtain ⟨j, hj, hlists⟩ := hc n closure hn
  have hext := Numbering.extends_insert c.items i
  exact ⟨j, hext n j hj, hlists.extend hext⟩

/-- A cache after more closures have been computed, all of items with a property. -/
structure Later (c c' : ClosureCache L) (P : Item L → Prop) : Prop where
  items : c.items.Extends c'.items
  numbered : ∀ n i, c'.items.get? n = some i → c.items.get? n = some i ∨ P i

lemma Later.refl (c : ClosureCache L) (P : Item L → Prop) : Later c c P :=
  ⟨.refl _, fun _ _ => .inl⟩

lemma Later.trans {c c' c'' : ClosureCache L} {P : Item L → Prop} (h : Later c c' P)
    (k : Later c' c'' P) : Later c c'' P where
  items := h.items.trans k.items
  numbered n i hi := (k.numbered n i hi).elim (h.numbered n i) .inr

lemma Later.imp {c c' : ClosureCache L} {P Q : Item L → Prop} (h : Later c c' P)
    (hpq : ∀ i, P i → Q i) : Later c c' Q where
  items := h.items
  numbered n i hi := (h.numbered n i hi).imp id (hpq i)

/-- **The closure of an item holds exactly the items that it reaches.** -/
theorem closureOf_spec (b : LookaheadBound d g s) {c : ClosureCache L} (hc : c.Valid d g s)
    {n : Nat} {i : Item L} (hn : c.items.get? n = some i) :
    (c.closureOf d g s n).1.Valid d g s ∧
      Later c (c.closureOf d g s n).1 (d.Reaches g s i) ∧
      (c.closureOf d g s n).1.items.Lists (c.closureOf d g s n).2 (d.Reaches g s i) := by
  unfold closureOf
  split
  · next closure hknown =>
    obtain ⟨j, hj, hlists⟩ := hc n closure hknown
    cases hn.symm.trans hj
    exact ⟨hc, .refl _ _, hlists⟩
  · obtain ⟨-, hgo, hlists⟩ := Search.run_seeded b hn
    dsimp only
    set w := Search.run d g s (closureBound d g) (.seeded c.items n)
    change Valid d g s ⟨w.items, c.known.insert n w.found⟩ ∧
      Later c ⟨w.items, c.known.insert n w.found⟩ (d.Reaches g s i) ∧
      w.items.Lists w.found (d.Reaches g s i)
    refine ⟨fun m closure hm => ?_, ⟨hgo.items, fun m j hj => ?_⟩, hlists⟩
    · rw [Std.TreeMap.getElem?_insert] at hm
      split at hm
      · next he =>
        cases hm
        rw [← Nat.compare_eq_eq.mp he]
        exact ⟨i, hgo.items n i hn, hlists⟩
      · obtain ⟨j, hj, hl⟩ := hc m closure hm
        exact ⟨j, hgo.items m j hj, hl.extend hgo.items⟩
    · rcases hgo.numbered m j hj with hj' | hm
      · exact .inl hj'
      · exact .inr ((hlists.mem_iff hj).mp hm)

/-- The closure of one more item is added to what is found. -/
def addClosure (d : Discipline L) (g : Grammar) (s : FirstFollow) (r : ClosureCache L × IdSet)
    (n : Nat) : ClosureCache L × IdSet :=
  ((r.1.closureOf d g s n).1, r.2.union (r.1.closureOf d g s n).2)

/-- The closures of the items with some numbers, united in the order of a list. -/
def closureAlong (d : Discipline L) (g : Grammar) (s : FirstFollow) (c : ClosureCache L)
    (seeds : List Nat) : ClosureCache L × IdSet :=
  seeds.foldl (addClosure d g s) (c, ∅)

lemma closure_eq_closureAlong (d : Discipline L) (g : Grammar) (s : FirstFollow)
    (c : ClosureCache L) (kernel : IdSet) :
    c.closure d g s kernel = c.closureAlong d g s kernel.toList := rfl

/-- What one of the items with some numbers reaches. -/
def Reached (d : Discipline L) (g : Grammar) (s : FirstFollow) (c : ClosureCache L)
    (seeds : List Nat) (j : Item L) : Prop :=
  ∃ n ∈ seeds, ∃ i, c.items.get? n = some i ∧ d.Reaches g s i j

/-- **United closures hold exactly the items that one of the seeds reaches**, in whichever order
the seeds are taken. -/
theorem closureAlong_spec (b : LookaheadBound d g s) {c : ClosureCache L} (hc : c.Valid d g s)
    {seeds : List Nat} (h : ∀ n ∈ seeds, ∃ i, c.items.get? n = some i) :
    (c.closureAlong d g s seeds).1.Valid d g s ∧
      Later c (c.closureAlong d g s seeds).1 (c.Reached d g s seeds) ∧
      (c.closureAlong d g s seeds).1.items.Lists (c.closureAlong d g s seeds).2
        (c.Reached d g s seeds) := by
  induction seeds using List.reverseRecOn with
  | nil => exact ⟨hc, .refl _ _, (Numbering.Lists.nothing _).congr (by simp [Reached])⟩
  | append_singleton seeds n ih =>
    obtain ⟨hvalid, hlater, hlists⟩ := ih fun m hm => h m (by simp [hm])
    obtain ⟨i, hi⟩ := h n (by simp)
    obtain ⟨hvalid', hlater', hof⟩ := closureOf_spec b hvalid (hlater.items n i hi)
    have hmore : ∀ j, c.Reached d g s seeds j ∨ d.Reaches g s i j ↔
        c.Reached d g s (seeds ++ [n]) j := fun j => by
      simp only [Reached, List.mem_append, List.mem_singleton, or_and_right, exists_or,
        exists_eq_left, hi, Option.some.injEq, exists_eq_left']
    rw [closureAlong, List.foldl_append]
    exact ⟨hvalid', (hlater.imp fun j hj => (hmore j).mp (.inl hj)).trans
      (hlater'.imp fun j hj => (hmore j).mp (.inr hj)),
      ((hlists.extend hlater'.items).union hof).congr hmore⟩

/-- **The closure of a set of items holds exactly the items that one of them reaches.** -/
theorem closure_spec (b : LookaheadBound d g s) {c : ClosureCache L} (hc : c.Valid d g s)
    {kernel : IdSet} {K : Item L → Prop} (hk : c.items.Lists kernel K) :
    (c.closure d g s kernel).1.Valid d g s ∧
      Later c (c.closure d g s kernel).1 (fun j => ∃ i, K i ∧ d.Reaches g s i j) ∧
      (c.closure d g s kernel).1.items.Lists (c.closure d g s kernel).2
        (fun j => ∃ i, K i ∧ d.Reaches g s i j) := by
  have hseeds : ∀ n ∈ kernel.toList, ∃ i, c.items.get? n = some i := fun n hn => by
    obtain ⟨i, hi, -⟩ := hk.sound n hn
    exact ⟨i, hi⟩
  have hreached : ∀ j, c.Reached d g s kernel.toList j ↔ ∃ i, K i ∧ d.Reaches g s i j := fun j => by
    constructor
    · rintro ⟨n, hn, i, hi, hr⟩
      exact ⟨i, (hk.mem_iff hi).mp hn, hr⟩
    · rintro ⟨i, hi, hr⟩
      obtain ⟨n, hn, hin⟩ := hk.complete i hi
      exact ⟨n, hn, i, hin, hr⟩
  obtain ⟨hvalid, hlater, hlists⟩ := closureAlong_spec b hc hseeds
  rw [closure_eq_closureAlong]
  exact ⟨hvalid, hlater.imp fun j => (hreached j).mp, hlists.congr hreached⟩

end ClosureCache

end Coscript
