import Coscript.Automaton.Collection
import Coscript.Proofs.Closure

/-!
# The collection of states is the automaton

State `0` of a collection is the closure of the start item. The row of a state has an entry for
exactly the symbols after the dots of its items, and the entry of a symbol is the state that holds
what the items reach once their dots are moved over the symbol. The exploration that builds the
collection ends with a row for each state: items have bounds, so that sets of them do.

* `Discipline.Valid`: the items that stand on a word of symbols, which is what states hold;
* `Collection.Exact`: the automaton that a collection is;
* `Exploration.step_spec`: what an added row keeps;
* `Collection.build_exact`, `Collection.build_valid`: every built collection is exact, and each of
  its states holds the valid items of some symbols;
* `Collection.build_distinct`: no two states hold the same items.
-/

namespace Coscript

variable {L : Type} {d : Discipline L} {g : Grammar} {s : FirstFollow}

/-- The items that those of a state reach once their dots are moved over a symbol. -/
def Discipline.Goto (d : Discipline L) (g : Grammar) (s : FirstFollow) (P : Item L → Prop)
    (x : Symbol) (j : Item L) : Prop :=
  ∃ i, P i ∧ i.next? g = some x ∧ d.Reaches g s i.advance j

/-- The items with a property imply only such items. -/
def Discipline.Closed (d : Discipline L) (g : Grammar) (s : FirstFollow) (P : Item L → Prop) :
    Prop :=
  ∀ i j, P i → d.Reaches g s i j → P j

/-- The items that are under way when some symbols have been pushed, the last one first. -/
inductive Discipline.Valid (d : Discipline L) (g : Grammar) (s : FirstFollow) (production : Nat) :
    List Symbol → Item L → Prop
  | start : Valid d g s production [] (d.startItem production)
  | implied {σ : List Symbol} {i j : Item L} (h : Valid d g s production σ i)
    (hj : j ∈ d.implied g s i) : Valid d g s production σ j
  | advance {σ : List Symbol} {i : Item L} {x : Symbol} (h : Valid d g s production σ i)
    (hx : i.next? g = some x) : Valid d g s production (x :: σ) i.advance

lemma Discipline.Valid.reaches {production : Nat} {σ : List Symbol} {i j : Item L}
    (h : d.Valid g s production σ i) (hr : d.Reaches g s i j) : d.Valid g s production σ j := by
  induction hr with
  | refl => exact h
  | tail _ hk ih => exact ih.implied hk

/-- The items that are valid for given symbols imply only such items. -/
lemma Discipline.closed_valid (production : Nat) (σ : List Symbol) :
    d.Closed g s (d.Valid g s production σ) :=
  fun _ _ hi hr => hi.reaches hr

/-- Without symbols, the items that the start item reaches are valid. -/
lemma Discipline.valid_nil_iff {production : Nat} {j : Item L} :
    d.Valid g s production [] j ↔ d.Reaches g s (d.startItem production) j := by
  constructor
  · intro h
    generalize hσ : ([] : List Symbol) = σ at h
    induction h with
    | start => exact .refl
    | implied _ hj ih => exact (ih hσ).tail hj
    | advance => cases hσ
  · exact fun h => Discipline.Valid.start.reaches h

/-- One symbol more moves the dots over it. -/
lemma Discipline.valid_cons_iff {production : Nat} {x : Symbol} {σ : List Symbol} {j : Item L} :
    d.Valid g s production (x :: σ) j ↔ d.Goto g s (d.Valid g s production σ) x j := by
  constructor
  · intro h
    generalize hτ : x :: σ = τ at h
    induction h with
    | start => cases hτ
    | implied _ hj ih =>
      obtain ⟨i, hi, hx, hr⟩ := ih hτ
      exact ⟨i, hi, hx, hr.tail hj⟩
    | @advance τ i y h hy =>
      cases hτ
      exact ⟨i, h, hy, .refl⟩
  · rintro ⟨i, hi, hx, hr⟩
    exact (hi.advance hx).reaches hr

/-- A property that the start item has, and that implications and moved dots keep. All items that
an exploration comes across have it. -/
structure Discipline.Inductive (d : Discipline L) (g : Grammar) (s : FirstFollow)
    (production : Nat) (Q : Item L → Prop) : Prop where
  start : Q (d.startItem production)
  implied : ∀ i j, Q i → j ∈ d.implied g s i → Q j
  advance : ∀ i x, Q i → i.next? g = some x → Q i.advance

lemma Discipline.Inductive.reaches {production : Nat} {Q : Item L → Prop}
    (h : d.Inductive g s production Q) {i j : Item L} (hi : Q i) (hr : d.Reaches g s i j) : Q j := by
  induction hr with
  | refl => exact hi
  | tail _ hk ih => exact h.implied _ _ ih hk

/-! ### Proper items -/

namespace LookaheadBound

/-- An item of a production with the dot in its body or behind it, and a lookahead that is reached
from the first one. -/
def Proper (b : LookaheadBound d g s) (i : Item L) : Prop :=
  (∃ p, g.production? i.production = some p ∧ i.dot ≤ p.body.length) ∧
    i.lookahead ∈ b.lookaheads d.start

lemma proper_inductive (b : LookaheadBound d g s) {production : Nat}
    (h : production < g.productions.size) : d.Inductive g s production b.Proper where
  start := ⟨⟨_, Array.getElem?_eq_getElem h, Nat.zero_le _⟩, b.self _⟩
  implied i j hi hj := by
    obtain ⟨a, -, hp, hdot, hl⟩ := Discipline.mem_implied_iff.mp hj
    obtain ⟨p, hp, -⟩ := Grammar.mem_productionsOf_iff.mp hp
    exact ⟨⟨p, hp, by omega⟩, b.trans hi.2 (b.spread i _ hl)⟩
  advance i x hi hx := by
    obtain ⟨⟨p, hp, -⟩, hl⟩ := hi
    rw [Item.next?, hp, Option.bind_some] at hx
    exact ⟨⟨p, hp, (List.getElem?_eq_some_iff.mp hx).1⟩, hl⟩

/-- The lookahead of a proper item is a numbered terminal. -/
lemma Proper.lookahead {i : Item Nat} (h : (LookaheadBound.canonical g).Proper i) :
    ∃ x, g.terminal? i.lookahead = some x := by
  rcases Finset.mem_insert.mp h.2 with he | hl
  · rw [he]
    exact ⟨_, g.terminal?_special.1⟩
  · exact Numbering.exists_get? (Finset.mem_range.mp hl)

end LookaheadBound

variable [DecidableEq L] [Hashable L]

namespace Exploration

/-! ### Kernels -/

/-- The kernels of the items seen so far: for each symbol the items after whose dot it stands, with
their dots moved on. -/
structure Kernels (g : Grammar) (c : ClosureCache L) (seen : List Nat)
    (r : ClosureCache L × OrderedMap Symbol IdSet) : Prop where
  known : r.1.known = c.known
  later : ClosureCache.Later c r.1 fun j => ∃ n ∈ seen, ∃ i, c.items.get? n = some i ∧
    (∃ x, i.next? g = some x) ∧ j = i.advance
  lists : ∀ x, r.1.items.Lists ((r.2.get? x).getD ∅) fun j => ∃ n ∈ seen, ∃ i,
    c.items.get? n = some i ∧ i.next? g = some x ∧ j = i.advance
  keys : ∀ x, (∃ kernel, r.2.get? x = some kernel) ↔
    ∃ n ∈ seen, ∃ i, c.items.get? n = some i ∧ i.next? g = some x

/-- What one item does to the kernels. -/
def addKernel (g : Grammar) (r : ClosureCache L × OrderedMap Symbol IdSet) (n : Nat) :
    ClosureCache L × OrderedMap Symbol IdSet :=
  match r.1.items.get? n with
  | none => r
  | some i =>
    match i.next? g with
    | none => r
    | some x =>
      ((r.1.store i.advance).1, r.2.insert x (((r.2.get? x).getD ∅).insert (r.1.store i.advance).2))

lemma kernels_eq (g : Grammar) (c : ClosureCache L) (state : IdSet) :
    kernels g c state = state.toList.foldl (addKernel g) (c, ∅) := rfl

lemma addKernel_spec {c : ClosureCache L} {seen : List Nat}
    {r : ClosureCache L × OrderedMap Symbol IdSet} (h : Kernels g c seen r) {n : Nat} {i : Item L}
    (hn : c.items.get? n = some i) : Kernels g c (seen ++ [n]) (addKernel g r n) := by
  have hr : r.1.items.get? n = some i := h.later.items n i hn
  -- What a property asks of the items seen so far and of the next one.
  have hseen : ∀ Q : Item L → Prop, (∃ m ∈ seen ++ [n], ∃ k, c.items.get? m = some k ∧ Q k) ↔
      (∃ m ∈ seen, ∃ k, c.items.get? m = some k ∧ Q k) ∨ Q i := fun Q => by
    constructor
    · rintro ⟨m, hm, k, hk, hq⟩
      rcases List.mem_append.mp hm with hm | hm
      · exact .inl ⟨m, hm, k, hk, hq⟩
      · rw [List.mem_singleton.mp hm, hn] at hk
        cases hk
        exact .inr hq
    · rintro (⟨m, hm, k, hk, hq⟩ | hq)
      · exact ⟨m, by simp [hm], k, hk, hq⟩
      · exact ⟨n, by simp, i, hn, hq⟩
  unfold addKernel
  simp only [hr]
  cases hx : i.next? g with
  | none =>
    refine ⟨h.known, h.later.imp fun j hj => (hseen _).mpr (.inl hj), fun x => ?_, fun x => ?_⟩
    · refine (h.lists x).congr fun j => ?_
      rw [hseen, hx]
      simp
    · rw [h.keys, hseen, hx]
      simp
  | some x =>
    have hadv := Numbering.get?_insert_snd r.1.items i.advance
    have hext := Numbering.extends_insert r.1.items i.advance
    refine ⟨h.known, (h.later.imp fun j hj => (hseen _).mpr (.inl hj)).trans
      ⟨hext, fun m j hj => ?_⟩, fun y => ?_, fun y => ?_⟩
    · rcases Numbering.get?_insert_iff.mp hj with hj | ⟨-, rfl⟩
      · exact .inl hj
      · exact .inr ((hseen _).mpr (.inr ⟨⟨x, hx⟩, rfl⟩))
    · have hold := (h.lists y).extend hext
      simp only [OrderedMap.get?_insert]
      by_cases hxy : x = y
      · subst hxy
        rw [if_pos rfl]
        refine (hold.insert hadv).congr fun j => ?_
        rw [hseen, hx]
        simp
      · rw [if_neg hxy]
        refine hold.congr fun j => ?_
        rw [hseen, hx]
        simp [hxy]
    · simp only [OrderedMap.get?_insert]
      by_cases hxy : x = y
      · subst hxy
        simp only [if_true, Option.some.injEq, exists_eq', true_iff]
        exact (hseen _).mpr (.inr hx)
      · rw [if_neg hxy, h.keys, hseen, hx]
        simp [hxy]

/-- The kernels of a state. -/
structure KernelsOf (g : Grammar) (c : ClosureCache L) (P : Item L → Prop)
    (r : ClosureCache L × OrderedMap Symbol IdSet) : Prop where
  known : r.1.known = c.known
  later : ClosureCache.Later c r.1 fun j => ∃ i, P i ∧ (∃ x, i.next? g = some x) ∧ j = i.advance
  lists : ∀ x kernel, r.2.get? x = some kernel →
    r.1.items.Lists kernel fun j => ∃ i, P i ∧ i.next? g = some x ∧ j = i.advance
  keys : ∀ x, (∃ kernel, r.2.get? x = some kernel) ↔ ∃ i, P i ∧ i.next? g = some x

/-- The kernels of a state are those of its items. -/
theorem kernels_spec {c : ClosureCache L} {state : IdSet} {P : Item L → Prop}
    (h : c.items.Lists state P) : KernelsOf g c P (kernels g c state) := by
  have hfold : ∀ (ns seen : List Nat) (r : ClosureCache L × OrderedMap Symbol IdSet),
      Kernels g c seen r → (∀ n ∈ ns, n ∈ state) →
      Kernels g c (seen ++ ns) (ns.foldl (addKernel g) r) := by
    intro ns
    induction ns with
    | nil =>
      intro seen r hr _
      rwa [List.append_nil]
    | cons n ns ih =>
      intro seen r hr hns
      obtain ⟨i, hi, -⟩ := h.sound n (hns n (by simp))
      have := ih (seen ++ [n]) _ (addKernel_spec hr hi) fun m hm => hns m (by simp [hm])
      rwa [List.append_assoc] at this
  have hstart : Kernels g c [] (c, ∅) := by
    refine ⟨rfl, .refl _ _, fun x => ?_, fun x => ?_⟩
    · exact (Numbering.Lists.nothing c.items).congr (by simp)
    · simp [show (∅ : OrderedMap Symbol IdSet).get? x = none from rfl]
  have hall := hfold state.toList [] _ hstart fun _ => id
  rw [List.nil_append, ← kernels_eq] at hall
  have hP : ∀ Q : Item L → Prop, (∃ n ∈ state.toList, ∃ i, c.items.get? n = some i ∧ Q i) ↔
      ∃ i, P i ∧ Q i := fun Q => by
    constructor
    · rintro ⟨n, hn, i, hi, hq⟩
      exact ⟨i, (h.mem_iff hi).mp hn, hq⟩
    · rintro ⟨i, hi, hq⟩
      obtain ⟨n, hn, hin⟩ := h.complete i hi
      exact ⟨n, hn, i, hin, hq⟩
  refine ⟨hall.known, hall.later.imp fun j => (hP _).mp, fun x kernel hk => ?_, fun x => ?_⟩
  · have := hall.lists x
    rw [hk] at this
    exact this.congr fun j => hP _
  · rw [hall.keys, hP]

/-! ### Targets -/

/-- What one kernel does to the exploration and the row of its state. -/
def addTarget (d : Discipline L) (g : Grammar) (s : FirstFollow) (r : Exploration L × GotoRow)
    (k : Symbol × IdSet) : Exploration L × GotoRow :=
  let target := r.1.cache.closure d g s k.2
  let states := r.1.states.insert target.2
  (⟨target.1, states.1, r.1.rows⟩, r.2.insert k.1 states.2)

lemma targets_eq (d : Discipline L) (g : Grammar) (s : FirstFollow) (e : Exploration L)
    (ks : List (Symbol × IdSet)) : targets d g s e ks = ks.foldl (addTarget d g s) (e, ∅) := rfl

/-- A number stands for the state that the items with a property have a transition to. -/
def Leads (d : Discipline L) (g : Grammar) (s : FirstFollow) (P : Item L → Prop)
    (e : Exploration L) (x : Symbol) (n : Nat) : Prop :=
  ∃ state, e.states.get? n = some state ∧ e.cache.items.Lists state (d.Goto g s P x)

/-- The targets of the kernels seen so far. -/
structure Targets (d : Discipline L) (g : Grammar) (s : FirstFollow) (P : Item L → Prop)
    (e : Exploration L) (seen : List (Symbol × IdSet)) (r : Exploration L × GotoRow) : Prop where
  valid : r.1.cache.Valid d g s
  later : ClosureCache.Later e.cache r.1.cache fun j => ∃ x, d.Goto g s P x j
  states : e.states.Extends r.1.states
  fresh : ∀ n state, r.1.states.get? n = some state → e.states.get? n = some state ∨
    ∃ x, (∃ i, P i ∧ i.next? g = some x) ∧ r.1.cache.items.Lists state (d.Goto g s P x)
  rows : r.1.rows = e.rows
  leads : ∀ x n, r.2.get? x = some n → Leads d g s P r.1 x n
  keys : ∀ x, (∃ n, r.2.get? x = some n) ↔ ∃ kernel, (x, kernel) ∈ seen

lemma addTarget_spec (b : LookaheadBound d g s) {P : Item L → Prop} {e : Exploration L}
    {seen : List (Symbol × IdSet)} {r : Exploration L × GotoRow} (h : Targets d g s P e seen r)
    {x : Symbol} {kernel : IdSet} (hx : ∃ i, P i ∧ i.next? g = some x)
    (hk : e.cache.items.Lists kernel fun j => ∃ i, P i ∧ i.next? g = some x ∧ j = i.advance) :
    Targets d g s P e (seen ++ [(x, kernel)]) (addTarget d g s r (x, kernel)) := by
  obtain ⟨hvalid, hlater, hlists⟩ := ClosureCache.closure_spec b h.valid (hk.extend h.later.items)
  have hgoto : ∀ j, (∃ i, (∃ k, P k ∧ k.next? g = some x ∧ i = k.advance) ∧ d.Reaches g s i j) ↔
      d.Goto g s P x j := fun j => by
    constructor
    · rintro ⟨_, ⟨k, hk, hx, rfl⟩, hr⟩
      exact ⟨k, hk, hx, hr⟩
    · rintro ⟨k, hk, hx, hr⟩
      exact ⟨_, ⟨k, hk, hx, rfl⟩, hr⟩
  have hlists := hlists.congr hgoto
  unfold addTarget
  dsimp only
  set target := r.1.cache.closure d g s kernel with htarget
  have hin := Numbering.get?_insert_snd r.1.states target.2
  have hext := Numbering.extends_insert r.1.states target.2
  refine ⟨hvalid, h.later.trans (hlater.imp fun j hj => ⟨x, (hgoto j).mp hj⟩),
    h.states.trans hext, fun n state hn => ?_, h.rows, fun y n hy => ?_, fun y => ?_⟩
  · rcases Numbering.get?_insert_iff.mp hn with hn | ⟨-, rfl⟩
    · rcases h.fresh n state hn with hn | ⟨y, hi, hy⟩
      · exact .inl hn
      · exact .inr ⟨y, hi, hy.extend hlater.items⟩
    · exact .inr ⟨x, hx, hlists⟩
  · rw [OrderedMap.get?_insert] at hy
    split at hy
    · next hxy =>
      cases hy
      subst hxy
      exact ⟨_, hin, hlists⟩
    · obtain ⟨state, hn, hl⟩ := h.leads y n hy
      exact ⟨state, hext n state hn, hl.extend hlater.items⟩
  · simp only [OrderedMap.get?_insert, List.mem_append, List.mem_singleton, Prod.mk.injEq]
    by_cases hxy : x = y
    · subst hxy
      simp only [if_true, Option.some.injEq, exists_eq', true_and, true_iff]
      exact ⟨kernel, .inr rfl⟩
    · rw [if_neg hxy, h.keys]
      simp [Ne.symm hxy]

/-- A row holds the transitions of the items with a property. -/
structure RowOf (d : Discipline L) (g : Grammar) (s : FirstFollow) (e : Exploration L)
    (P : Item L → Prop) (row : GotoRow) : Prop where
  leads : ∀ x n, row.get? x = some n → Leads d g s P e x n
  keys : ∀ x, (∃ n, row.get? x = some n) ↔ ∃ i, P i ∧ i.next? g = some x

/-- The row that is found for a state holds the transitions of its items. -/
theorem targets_spec (b : LookaheadBound d g s) {P : Item L → Prop} {e : Exploration L}
    (he : e.cache.Valid d g s) {ks : OrderedMap Symbol IdSet}
    (hk : ∀ x kernel, ks.get? x = some kernel →
      e.cache.items.Lists kernel fun j => ∃ i, P i ∧ i.next? g = some x ∧ j = i.advance)
    (hkeys : ∀ x, (∃ kernel, ks.get? x = some kernel) ↔ ∃ i, P i ∧ i.next? g = some x) :
    Targets d g s P e ks.entries (targets d g s e ks.entries) ∧
      RowOf d g s (targets d g s e ks.entries).1 P (targets d g s e ks.entries).2 := by
  have hfold : ∀ (rest seen : List (Symbol × IdSet)) (r : Exploration L × GotoRow),
      Targets d g s P e seen r → (∀ k ∈ rest, k ∈ ks.entries) →
      Targets d g s P e (seen ++ rest) (rest.foldl (addTarget d g s) r) := by
    intro rest
    induction rest with
    | nil =>
      intro seen r hr _
      rwa [List.append_nil]
    | cons k rest ih =>
      intro seen r hr hrest
      have hentry := OrderedMap.mem_entries_iff.mp (hrest k (by simp))
      have hadd := addTarget_spec b hr ((hkeys k.1).mp ⟨k.2, hentry⟩) (hk k.1 k.2 hentry)
      have := ih (seen ++ [k]) _ hadd fun m hm => hrest m (by simp [hm])
      rwa [List.append_assoc] at this
  have hstart : Targets d g s P e [] (e, ∅) :=
    ⟨he, .refl _ _, .refl _, fun _ _ => .inl, rfl, fun x n hn => (by cases hn),
      fun x => by simp [show (∅ : GotoRow).get? x = none from rfl]⟩
  have hall := hfold ks.entries [] _ hstart fun _ => id
  rw [List.nil_append, ← targets_eq] at hall
  refine ⟨hall, hall.leads, fun x => ?_⟩
  rw [hall.keys, ← hkeys]
  simp only [OrderedMap.mem_entries_iff]

end Exploration

/-! ### Counting items -/

namespace LookaheadBound

variable (b : LookaheadBound d g s)

/-- The productions of a list with their dots. -/
def dots (ps : List (Production × Nat)) : List (Nat × Nat) :=
  ps.flatMap fun e => (List.range (e.1.body.length + 1)).map fun dot => (e.2, dot)

lemma length_dots (ps : List Production) (k n : Nat) :
    ps.foldl (fun n p => n + p.body.length + 1) n = n + (dots (ps.zipIdx k)).length := by
  induction ps generalizing k n with
  | nil => simp [dots]
  | cons p ps ih =>
    rw [List.foldl_cons, ih (k + 1), List.zipIdx_cons]
    simp only [dots, List.flatMap_cons, List.length_append, List.length_map, List.length_range]
    omega

/-- There are at most as many proper items as the bound says. -/
lemma size_le_itemBound {items : Numbering (Item L)}
    (h : ∀ n i, items.get? n = some i → b.Proper i) : items.size ≤ d.itemBound g := by
  let candidates : Finset (Item L) :=
    ((dots g.productions.toList.zipIdx).toFinset ×ˢ b.lookaheads d.start).image
      fun e => ⟨e.1.1, e.1.2, e.2⟩
  have hcard : candidates.card ≤ d.itemBound g := by
    refine Finset.card_image_le.trans ?_
    rw [Finset.card_product, Discipline.itemBound, length_dots _ 0, Nat.zero_add]
    exact Nat.mul_le_mul (List.toFinset_card_le _) (b.card_le _)
  refine le_trans (Numbering.size_le_card fun n i hi => ?_) hcard
  obtain ⟨⟨p, hp, hdot⟩, hl⟩ := h n i hi
  refine Finset.mem_image.mpr ⟨((i.production, i.dot), i.lookahead), ?_, rfl⟩
  refine Finset.mem_product.mpr ⟨List.mem_toFinset.mpr ?_, hl⟩
  simp only [dots, List.mem_flatMap, List.mem_map, List.mem_range, Prod.mk.injEq, Prod.exists]
  refine ⟨p, i.production, ?_, i.dot, by omega, rfl, rfl⟩
  rw [List.mem_zipIdx_iff_getElem?, Array.getElem?_toList]
  exact hp

end LookaheadBound

/-! ### The exploration -/

namespace Exploration

/-- The states hold the valid items of some symbols, which there are, state `0` those of none, and the
rows hold the transitions of the first states. -/
structure Invariant (d : Discipline L) (g : Grammar) (s : FirstFollow) (production : Nat)
    (e : Exploration L) : Prop where
  valid : e.cache.Valid d g s
  items : ∀ Q, d.Inductive g s production Q → ∀ n i, e.cache.items.get? n = some i → Q i
  states : ∀ n state, e.states.get? n = some state →
    ∃ σ, (∃ i, d.Valid g s production σ i) ∧ e.cache.items.Lists state (d.Valid g s production σ)
  start : ∃ state, e.states.get? 0 = some state ∧
    e.cache.items.Lists state (d.Reaches g s (d.startItem production))
  rows : ∀ (n : Nat) row, e.rows[n]? = some row → ∃ state P, e.states.get? n = some state ∧
    e.cache.items.Lists state P ∧ RowOf d g s e P row

lemma RowOf.extend {e f : Exploration L} {P : Item L → Prop} {row : GotoRow}
    (h : RowOf d g s e P row) (hs : e.states.Extends f.states)
    (hi : e.cache.items.Extends f.cache.items) : RowOf d g s f P row where
  leads x n hx := by
    obtain ⟨state, hn, hl⟩ := h.leads x n hx
    exact ⟨state, hs n state hn, hl.extend hi⟩
  keys := h.keys

/-- The exploration begins with the closure of the start item. -/
lemma start_invariant (b : LookaheadBound d g s) (production : Nat) :
    Invariant d g s production (start d g s production) := by
  let c := ((ClosureCache.empty : ClosureCache L).store (d.startItem production)).1
  let n := ((ClosureCache.empty : ClosureCache L).store (d.startItem production)).2
  have hitems : c.items = (Numbering.empty.insert (d.startItem production)).1 := rfl
  have hn : c.items.get? n = some (d.startItem production) :=
    Numbering.get?_insert_snd .empty (d.startItem production)
  have hc : c.Valid d g s := ClosureCache.valid_empty.store _
  have honly : ∀ m i, c.items.get? m = some i → i = d.startItem production := fun m i hm => by
    rw [hitems] at hm
    rcases Numbering.get?_insert_iff.mp hm with hm | ⟨-, hm⟩
    · simp at hm
    · exact hm
  obtain ⟨hvalid, hlater, hlists⟩ := ClosureCache.closureOf_spec b hc hn
  have hstates : ∀ m state, (start d g s production).states.get? m = some state →
      m = 0 ∧ state = (c.closureOf d g s n).2 := fun m state hm => by
    rcases Numbering.get?_insert_iff.mp hm with hm | ⟨hm, hs⟩
    · simp at hm
    · refine ⟨?_, hs⟩
      rw [hm, (Numbering.values_insert_of_number? (Numbering.number?_empty _)).2]
      rfl
  have hzero : (start d g s production).states.get? 0 = some (c.closureOf d g s n).2 := by
    have h := Numbering.get?_insert_snd Numbering.empty (c.closureOf d g s n).2
    rwa [(hstates _ _ h).1] at h
  refine ⟨hvalid, fun Q hQ m i hm => ?_, fun m state hm => ?_, ⟨_, hzero, hlists⟩,
    fun m row hm => ?_⟩
  · rcases hlater.numbered m i hm with hm | hr
    · rw [honly m i hm]
      exact hQ.start
    · exact hQ.reaches hQ.start hr
  · rw [(hstates m state hm).2]
    exact ⟨[], ⟨_, .start⟩, hlists.congr fun _ => Discipline.valid_nil_iff.symm⟩
  · simp [start] at hm

/-- **An added row keeps the invariant.** -/
theorem step_spec (b : LookaheadBound d g s) {production : Nat} {e : Exploration L}
    (h : e.Invariant d g s production) (hlt : e.rows.size < e.states.size) :
    (e.step d g s).Invariant d g s production ∧ (e.step d g s).rows.size = e.rows.size + 1 ∧
      e.states.Extends (e.step d g s).states := by
  obtain ⟨state, hstate⟩ := Numbering.exists_get? hlt
  obtain ⟨σ, -, hP⟩ := h.states _ _ hstate
  have hk := kernels_spec (g := g) hP
  let ks := kernels g e.cache state
  have hvalid : ks.1.Valid d g s := fun n closure hn => by
    rw [hk.known] at hn
    obtain ⟨i, hi, hl⟩ := h.valid n closure hn
    exact ⟨i, hk.later.items n i hi, hl.extend hk.later.items⟩
  obtain ⟨ht, hrow⟩ := targets_spec b (e := ⟨ks.1, e.states, e.rows⟩) hvalid hk.lists hk.keys
  have hitems : e.cache.items.Extends
      (targets d g s ⟨ks.1, e.states, e.rows⟩ ks.2.entries).1.cache.items :=
    hk.later.items.trans ht.later.items
  have hitemsOf : ∀ Q, d.Inductive g s production Q → ∀ i, d.Valid g s production σ i → Q i :=
      fun Q hQ i hi => by
    obtain ⟨n, -, hn⟩ := hP.complete i hi
    exact h.items Q hQ n i hn
  have hstep : e.step d g s = ⟨(targets d g s ⟨ks.1, e.states, e.rows⟩ ks.2.entries).1.cache,
      (targets d g s ⟨ks.1, e.states, e.rows⟩ ks.2.entries).1.states,
      (targets d g s ⟨ks.1, e.states, e.rows⟩ ks.2.entries).1.rows.push
        (targets d g s ⟨ks.1, e.states, e.rows⟩ ks.2.entries).2⟩ := by
    unfold step
    rw [hstate]
  rw [hstep]
  set r := targets d g s ⟨ks.1, e.states, e.rows⟩ ks.2.entries with hr
  have hrows : r.1.rows = e.rows := ht.rows
  refine ⟨⟨ht.valid, fun Q hQ n i hn => ?_, fun n S hn => ?_, ?_, fun n row hn => ?_⟩, ?_,
    ht.states⟩
  · rcases ht.later.numbered n i hn with hn | ⟨x, j, hj, hx, hji⟩
    · rcases hk.later.numbered n i hn with hn | ⟨j, hj, ⟨x, hx⟩, rfl⟩
      · exact h.items Q hQ n i hn
      · exact hQ.advance j x (hitemsOf Q hQ j hj) hx
    · exact hQ.reaches (hQ.advance j x (hitemsOf Q hQ j hj) hx) hji
  · rcases ht.fresh n S hn with hn | ⟨x, ⟨i, hi, hx⟩, hl⟩
    · obtain ⟨τ, hi, hτ⟩ := h.states n S hn
      exact ⟨τ, hi, hτ.extend hitems⟩
    · exact ⟨x :: σ, ⟨_, hi.advance hx⟩, hl.congr fun _ => Discipline.valid_cons_iff.symm⟩
  · obtain ⟨S, hS, hl⟩ := h.start
    exact ⟨S, ht.states _ _ hS, hl.extend hitems⟩
  · simp only [hrows] at hn
    rw [Array.getElem?_push] at hn
    split at hn
    · next he =>
      cases hn
      subst he
      exact ⟨state, _, ht.states _ _ hstate, hP.extend hitems, hrow.leads, hrow.keys⟩
    · obtain ⟨S, Q, hS, hQ, hRow⟩ := h.rows n row hn
      exact ⟨S, Q, ht.states _ _ hS, hQ.extend hitems,
        hRow.extend (f := ⟨r.1.cache, r.1.states, r.1.rows.push r.2⟩) ht.states hitems⟩
  · simp [hrows]

/-- Distinct sets of boundedly many items are boundedly many. -/
lemma size_states_le (b : LookaheadBound d g s) {production : Nat}
    (hp : production < g.productions.size) {e : Exploration L}
    (h : e.Invariant d g s production) : e.states.size ≤ Nat.pow 2 (d.itemBound g) := by
  have hle := b.size_le_itemBound (h.items _ (b.proper_inductive hp))
  have hcard := Finset.card_le_card_of_injOn (s := Finset.range e.states.size)
    (t := (Finset.range (d.itemBound g)).powerset)
    (fun n => ((e.states.get? n).getD ∅).toList.toFinset) ?_ ?_
  · rwa [Finset.card_range, Finset.card_powerset, Finset.card_range] at hcard
  · intro n hn
    obtain ⟨state, hs⟩ := Numbering.exists_get? (Finset.mem_range.mp hn)
    obtain ⟨σ, -, hP⟩ := h.states n state hs
    refine Finset.mem_coe.mpr (Finset.mem_powerset.mpr fun m hm => Finset.mem_range.mpr ?_)
    simp only [hs, Option.getD_some, List.mem_toFinset] at hm
    obtain ⟨i, hi, -⟩ := hP.sound m hm
    exact lt_of_lt_of_le (Numbering.lt_size_of_get? hi) hle
  · intro m hm n hn he
    obtain ⟨S, hS⟩ := Numbering.exists_get? (Finset.mem_range.mp hm)
    obtain ⟨T, hT⟩ := Numbering.exists_get? (Finset.mem_range.mp hn)
    simp only [hS, hT, Option.getD_some] at he
    have : S = T := IdSet.ext fun k => by
      rw [IdSet.mem_def, IdSet.mem_def, ← List.mem_toFinset, he, List.mem_toFinset]
    subst this
    exact Numbering.get?_inj hS hT

/-- A run keeps the invariant, and adds a row for each unit of fuel or has a row for each state. -/
lemma run_spec (b : LookaheadBound d g s) {production : Nat} (fuel : Nat) {e : Exploration L}
    (h : e.Invariant d g s production) :
    (run d g s fuel e).Invariant d g s production ∧
      ((run d g s fuel e).states.size ≤ (run d g s fuel e).rows.size ∨
        (run d g s fuel e).rows.size = e.rows.size + fuel) := by
  induction fuel generalizing e with
  | zero => exact ⟨h, .inr rfl⟩
  | succ fuel ih =>
    rw [run]
    split
    · next hlt =>
      obtain ⟨hs, hsize, -⟩ := step_spec b h hlt
      obtain ⟨hrun, hend⟩ := ih hs
      refine ⟨hrun, hend.imp id fun hend => ?_⟩
      omega
    · next hge => exact ⟨h, .inl (by omega)⟩

end Exploration

/-! ### The automaton -/

namespace Collection

/-- The transitions of a collection are those of the automaton. -/
structure Exact (d : Discipline L) (g : Grammar) (s : FirstFollow) (production : Nat)
    (c : Collection L) : Prop where
  pos : 0 < c.size
  start : ∀ j, j ∈ c.itemsOf 0 ↔ d.Reaches g s (d.startItem production) j
  goto : ∀ state x n, (c.row state).get? x = some n →
    n < c.size ∧ ∀ j, j ∈ c.itemsOf n ↔ d.Goto g s (· ∈ c.itemsOf state) x j
  keys : ∀ state x, (∃ n, (c.row state).get? x = some n) ↔
    ∃ i ∈ c.itemsOf state, i.next? g = some x
  closed : ∀ state, d.Closed g s (· ∈ c.itemsOf state)

lemma mem_itemsOf_iff {c : Collection L} {state : Nat} {found : IdSet} {P : Item L → Prop}
    (hs : c.states.get? state = some found) (hl : c.items.Lists found P) {i : Item L} :
    i ∈ c.itemsOf state ↔ P i := by
  simp only [itemsOf, hs, List.mem_filterMap]
  constructor
  · rintro ⟨n, hn, hi⟩
    exact (hl.mem_iff hi).mp hn
  · intro hp
    obtain ⟨n, hn, hi⟩ := hl.complete i hp
    exact ⟨n, hn, hi⟩

lemma lt_size_of_mem_itemsOf {c : Collection L} {state : Nat} {i : Item L}
    (h : i ∈ c.itemsOf state) : state < c.size := by
  unfold itemsOf at h
  split at h
  · next found hs => exact Numbering.lt_size_of_get? hs
  · cases h

/-- **The collection that is built is the automaton**, and its items have every property that the
start item has and that implications and moved dots keep. -/
theorem build_exact (b : LookaheadBound d g s) {production : Nat}
    (hp : production < g.productions.size) :
    (build d g s production).Exact d g s production ∧
      ∀ Q, d.Inductive g s production Q →
        ∀ state, ∀ i ∈ (build d g s production).itemsOf state, Q i := by
  have hstart := Exploration.start_invariant (d := d) (s := s) b production
  obtain ⟨h, hend⟩ := Exploration.run_spec b (Nat.pow 2 (d.itemBound g)) hstart
  set e := Exploration.run d g s (Nat.pow 2 (d.itemBound g)) (.start d g s production) with he
  have hbuild : build d g s production = ⟨e.cache.items, e.states, e.rows, e.cache.memoized⟩ := rfl
  have hrows : e.states.size ≤ e.rows.size := by
    have hle := Exploration.size_states_le b hp h
    have hzero : (Exploration.start d g s production).rows.size = 0 := rfl
    omega
  -- The row of a state that there is, and what the state's items are.
  have hrow : ∀ state, state < e.states.size → ∃ P,
      (∀ i, i ∈ (build d g s production).itemsOf state ↔ P i) ∧
        e.RowOf d g s P ((build d g s production).row state) := fun state hlt => by
    have hr : e.rows[state]? = some e.rows[state] := Array.getElem?_eq_getElem (by omega)
    obtain ⟨S, P, hS, hP, hRow⟩ := h.rows state _ hr
    refine ⟨P, fun i => ?_, ?_⟩
    · rw [hbuild]
      exact mem_itemsOf_iff (c := ⟨e.cache.items, e.states, e.rows, e.cache.memoized⟩) hS hP
    · rwa [row, hbuild, hr]
  have hout : ∀ state x n, ((build d g s production).row state).get? x = some n →
      state < e.states.size := fun state x n hx => by
    by_contra hge
    have hnone : e.rows[state]? = none := by
      by_contra hsome
      obtain ⟨row, hrow⟩ := Option.ne_none_iff_exists'.mp hsome
      obtain ⟨S, P, hS, -⟩ := h.rows state row hrow
      exact hge (Numbering.lt_size_of_get? hS)
    rw [row, hbuild, hnone] at hx
    cases hx
  refine ⟨⟨?_, fun j => ?_, fun state x n hx => ?_, fun state x => ⟨?_, ?_⟩,
    fun state i j hi hj => ?_⟩, fun Q hQ state i hi => ?_⟩
  · obtain ⟨S, hS, -⟩ := h.start
    exact Numbering.lt_size_of_get? hS
  · obtain ⟨S, hS, hl⟩ := h.start
    rw [hbuild]
    exact mem_itemsOf_iff (c := ⟨e.cache.items, e.states, e.rows, e.cache.memoized⟩) hS hl
  · obtain ⟨P, hP, hRow⟩ := hrow state (hout state x n hx)
    obtain ⟨T, hT, hl⟩ := hRow.leads x n hx
    refine ⟨Numbering.lt_size_of_get? hT, fun j => ?_⟩
    have hPeq : (· ∈ (build d g s production).itemsOf state) = P := funext fun i => propext (hP i)
    rw [hPeq, hbuild]
    exact mem_itemsOf_iff (c := ⟨e.cache.items, e.states, e.rows, e.cache.memoized⟩) hT hl
  · rintro ⟨n, hn⟩
    obtain ⟨P, hP, hRow⟩ := hrow state (hout state x n hn)
    obtain ⟨i, hi, hx⟩ := (hRow.keys x).mp ⟨n, hn⟩
    exact ⟨i, (hP i).mpr hi, hx⟩
  · rintro ⟨i, hi, hx⟩
    obtain ⟨P, hP, hRow⟩ := hrow state (lt_size_of_mem_itemsOf hi)
    exact (hRow.keys x).mpr ⟨i, (hP i).mp hi, hx⟩
  · obtain ⟨S, hS⟩ := Numbering.exists_get? (lt_size_of_mem_itemsOf hi)
    obtain ⟨σ, -, hP⟩ := h.states state S hS
    have hPi := (mem_itemsOf_iff (c := build d g s production) hS hP).mp hi
    exact (mem_itemsOf_iff (c := build d g s production) hS hP).mpr
      (Discipline.closed_valid production σ i j hPi hj)
  · obtain ⟨S, hS⟩ := Numbering.exists_get? (lt_size_of_mem_itemsOf hi)
    obtain ⟨σ, -, hP⟩ := h.states state S hS
    have hPi := (mem_itemsOf_iff (c := build d g s production) hS hP).mp hi
    obtain ⟨n, -, hn⟩ := hP.complete i hPi
    exact h.items Q hQ n i hn

/-- The items of the collection that is built are proper. -/
lemma build_proper (b : LookaheadBound d g s) {production : Nat}
    (hp : production < g.productions.size) :
    ∀ state, ∀ i ∈ (build d g s production).itemsOf state, b.Proper i :=
  (build_exact b hp).2 _ (b.proper_inductive hp)

/-- The states of the collection that is built list the valid items of some symbols, which there
are. -/
lemma build_states (b : LookaheadBound d g s) (production : Nat) {state : Nat} {found : IdSet}
    (hs : (build d g s production).states.get? state = some found) :
    ∃ σ, (∃ i, d.Valid g s production σ i) ∧
      (build d g s production).items.Lists found (d.Valid g s production σ) := by
  have hstart := Exploration.start_invariant (d := d) (s := s) b production
  obtain ⟨h, -⟩ := Exploration.run_spec b (Nat.pow 2 (d.itemBound g)) hstart
  exact h.states state found hs

/-- **Each state of the collection that is built holds the valid items of some symbols.** -/
theorem build_valid (b : LookaheadBound d g s) (production : Nat) :
    ∀ state < (build d g s production).size, ∃ σ, ∀ i,
      i ∈ (build d g s production).itemsOf state ↔ d.Valid g s production σ i := by
  intro state hlt
  obtain ⟨S, hS⟩ := Numbering.exists_get? hlt
  obtain ⟨σ, -, hσ⟩ := build_states b production hS
  exact ⟨σ, fun i => mem_itemsOf_iff hS hσ⟩

/-- Each state of the collection that is built has an item. -/
lemma build_inhabited (b : LookaheadBound d g s) (production : Nat) {state : Nat}
    (hlt : state < (build d g s production).size) :
    ∃ i, i ∈ (build d g s production).itemsOf state := by
  obtain ⟨S, hS⟩ := Numbering.exists_get? hlt
  obtain ⟨σ, ⟨i, hi⟩, hσ⟩ := build_states b production hS
  exact ⟨i, (mem_itemsOf_iff hS hσ).mpr hi⟩

/-- **The states of the collection that is built are distinct sets of items.** -/
theorem build_distinct (b : LookaheadBound d g s) (production : Nat) {m n : Nat}
    (hm : m < (build d g s production).size) (hn : n < (build d g s production).size)
    (h : ∀ i, i ∈ (build d g s production).itemsOf m ↔ i ∈ (build d g s production).itemsOf n) :
    m = n := by
  obtain ⟨S, hS⟩ := Numbering.exists_get? hm
  obtain ⟨T, hT⟩ := Numbering.exists_get? hn
  obtain ⟨σ, -, hσ⟩ := build_states b production hS
  obtain ⟨τ, -, hτ⟩ := build_states b production hT
  have hiff : ∀ i, d.Valid g s production σ i ↔ d.Valid g s production τ i := fun i => by
    rw [← mem_itemsOf_iff hS hσ, ← mem_itemsOf_iff hT hτ]
    exact h i
  obtain rfl : S = T := hσ.unique (hτ.congr fun i => (hiff i).symm)
  exact Numbering.get?_inj hS hT

end Collection

end Coscript
