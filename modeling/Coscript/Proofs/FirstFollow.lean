import Coscript.Analysis.FirstFollow
import Coscript.Proofs.Derivation
import Mathlib.Data.Finset.Prod

/-!
# Completeness of the FIRST and FOLLOW sets

Both families of sets are reached by passes that only add terminals. A pass that adds none leaves
sets that meet every demand of every production, and the bound on the number of passes suffices for
that: the pairs of a name and one of its terminals are at most `names × terminals`, and every pass
but the last adds one.

* `Grammar.firstSets_closed`, `Grammar.followSets_closed`: the sets meet every demand;
* `Grammar.firstSets_induction`, `Grammar.followSets_induction`: what every demand keeps holds of the
  sets;
* `Grammar.FirstClosed.begins_trees`: the terminals that begin what a sequence of symbols derives
  are among its leading terminals.
-/

namespace Coscript

namespace TerminalSets

/-- Sets for the same names in the same order, each with the members of the other one and maybe
more. -/
def Le (s t : TerminalSets) : Prop := s.keys = t.keys ∧ ∀ a, ∀ n ∈ s.of a, n ∈ t.of a

lemma Le.refl (s : TerminalSets) : Le s s := ⟨rfl, fun _ _ => id⟩

lemma Le.trans {s t u : TerminalSets} (h : Le s t) (k : Le t u) : Le s u :=
  ⟨h.1.trans k.1, fun a n hn => k.2 a n (h.2 a n hn)⟩

lemma Le.antisymm {s t : TerminalSets} (h : Le s t) (k : Le t s) : s = t := by
  refine OrderedMap.eq_of_get? h.1 fun a ha => ?_
  obtain ⟨x, hx⟩ := OrderedMap.mem_keys_iff.mp ha
  obtain ⟨y, hy⟩ := OrderedMap.mem_keys_iff.mp (h.1 ▸ ha)
  have hxy : x = y := IdSet.ext fun n => by
    have h' := h.2 a n
    have k' := k.2 a n
    simp only [of, hx, hy, Option.getD_some] at h' k'
    exact ⟨h', k'⟩
  rw [hx, hy, hxy]

lemma get?_of_mem_keys {s : TerminalSets} {a : String} (h : a ∈ s.keys) :
    s.get? a = some (s.of a) := by
  obtain ⟨x, hx⟩ := OrderedMap.mem_keys_iff.mp h
  rw [of, hx, Option.getD_some]

lemma keys_grow (s : TerminalSets) (a : String) (more : IdSet) : (s.grow a more).keys = s.keys := by
  unfold grow
  split
  · next old h => exact OrderedMap.keys_insert_of_mem (OrderedMap.mem_keys_iff.mpr ⟨old, h⟩)
  · rfl

lemma mem_of_grow_iff {s : TerminalSets} {a b : String} {more : IdSet} {n : Nat}
    (ha : a ∈ s.keys) : n ∈ (s.grow a more).of b ↔ n ∈ s.of b ∨ b = a ∧ n ∈ more := by
  rw [grow, get?_of_mem_keys ha]
  simp only [of, OrderedMap.get?_insert]
  by_cases hb : a = b
  · simp [← hb, get?_of_mem_keys ha]
  · simp [hb, Ne.symm hb]

lemma mem_of_mem_grow {s : TerminalSets} {a b : String} {more : IdSet} {n : Nat}
    (h : n ∈ (s.grow a more).of b) : n ∈ s.of b ∨ b = a ∧ n ∈ more := by
  by_cases ha : a ∈ s.keys
  · exact (mem_of_grow_iff ha).mp h
  · rw [grow, OrderedMap.get?_eq_none_iff.mpr ha] at h
    exact .inl h

lemma le_grow (s : TerminalSets) (a : String) (more : IdSet) : Le s (s.grow a more) := by
  refine ⟨(s.keys_grow a more).symm, fun b n hn => ?_⟩
  by_cases ha : a ∈ s.keys
  · exact (mem_of_grow_iff ha).mpr (.inl hn)
  · have : s.get? a = .none := OrderedMap.get?_eq_none_iff.mpr ha
    rwa [grow, this]

/-- Growth that adds nothing was of terminals that are there. -/
lemma mem_of_grow_eq {s : TerminalSets} {a : String} {more : IdSet} (ha : a ∈ s.keys)
    (h : s.grow a more = s) {n : Nat} (hn : n ∈ more) : n ∈ s.of a := by
  rw [← h]
  exact (mem_of_grow_iff ha).mpr (.inr ⟨rfl, hn⟩)

/-- The pairs of a name and one of the terminals of its set. -/
def pairs (bound : Nat) (s : TerminalSets) : Finset (String × Nat) :=
  (s.keys.toFinset ×ˢ Finset.range bound).filter fun e => e.2 ∈ s.of e.1

/-- Sets for the given names of terminals with small numbers. -/
structure Within (names : List String) (bound : Nat) (s : TerminalSets) : Prop where
  keys_eq : s.keys = names
  lt : ∀ a, ∀ n ∈ s.of a, n < bound

lemma card_pairs_le {names : List String} {bound : Nat} {s : TerminalSets}
    (h : s.Within names bound) : (s.pairs bound).card ≤ names.length * bound := by
  refine (Finset.card_filter_le _ _).trans ?_
  rw [Finset.card_product, Finset.card_range, h.keys_eq]
  exact Nat.mul_le_mul_right _ (List.toFinset_card_le _)

/-- Sets that grow and change gain a pair. -/
lemma card_pairs_lt {names : List String} {bound : Nat} {s t : TerminalSets}
    (ht : t.Within names bound) (hle : Le s t) (hne : t ≠ s) :
    (s.pairs bound).card < (t.pairs bound).card := by
  have hnot : ¬ Le t s := fun h => hne (Le.antisymm h hle)
  have hkeys : t.keys = s.keys := hle.1.symm
  obtain ⟨a, n, hn, hns⟩ : ∃ a, ∃ n ∈ t.of a, n ∉ s.of a := by
    by_contra hall
    push Not at hall
    exact hnot ⟨hkeys, hall⟩
  have ha : a ∈ t.keys := by
    by_contra ha
    rw [of, OrderedMap.get?_eq_none_iff.mpr ha] at hn
    exact IdSet.not_mem_empty n hn
  refine Finset.card_lt_card (Finset.ssubset_iff_subset_ne.mpr ⟨fun e he => ?_, fun he => ?_⟩)
  · simp only [pairs, Finset.mem_filter, Finset.mem_product, hkeys] at he ⊢
    exact ⟨he.1, hle.2 _ _ he.2⟩
  · have hmem : (a, n) ∈ t.pairs bound := by
      simp [pairs, ha, hn, ht.lt a n hn]
    rw [← he] at hmem
    exact hns (Finset.mem_filter.mp hmem).2

end TerminalSets

/-! ### Passes -/

/-- What holds of sets that a pass leaves as they are, and is carried back over passes that add
something, holds of repeated passes that only add small terminals, if there is fuel for as many of
them as there are pairs left to add. -/
lemma settle_induction {names : List String} {bound : Nat} {pass : TerminalSets → TerminalSets}
    {P : TerminalSets → TerminalSets × Nat → Prop}
    (grows : ∀ s, s.Within names bound → s.Le (pass s) ∧ (pass s).Within names bound)
    (fixed : ∀ s, s.Within names bound → pass s = s → P s (s, 1))
    (again : ∀ s r, s.Within names bound → pass s ≠ s → P (pass s) r → P s (r.1, r.2 + 1)) :
    ∀ (fuel : Nat) (s : TerminalSets), s.Within names bound →
      names.length * bound < fuel + (s.pairs bound).card → P s (settle pass fuel s) := by
  intro fuel
  induction fuel with
  | zero =>
    intro s hs hfuel
    have := TerminalSets.card_pairs_le hs
    omega
  | succ fuel ih =>
    intro s hs hfuel
    unfold settle
    by_cases he : pass s = s
    · simp only [he, if_true]
      exact fixed s hs he
    · simp only [he, if_false]
      obtain ⟨hle, hw⟩ := grows s hs
      have := TerminalSets.card_pairs_lt hw hle he
      exact again s _ hs he (ih (pass s) hw (by omega))

/-- Enough passes that only add small terminals end with sets that the pass leaves as they are. -/
theorem settle_fixed {names : List String} {bound : Nat} {pass : TerminalSets → TerminalSets}
    (grows : ∀ s, s.Within names bound → s.Le (pass s) ∧ (pass s).Within names bound) :
    ∀ (fuel : Nat) (s : TerminalSets), s.Within names bound →
      names.length * bound < fuel + (s.pairs bound).card →
      s.Le (settle pass fuel s).1 ∧ (settle pass fuel s).1.Within names bound ∧
        pass (settle pass fuel s).1 = (settle pass fuel s).1 := by
  refine settle_induction (P := fun s r => s.Le r.1 ∧ r.1.Within names bound ∧ pass r.1 = r.1) grows
    (fun s hs he => ⟨.refl s, hs, he⟩) fun s r hs _ hr => ?_
  exact ⟨(grows s hs).1.trans hr.1, hr.2⟩

/-- What a pass keeps, repeated passes keep. -/
lemma settle_invariant {pass : TerminalSets → TerminalSets} {P : TerminalSets → Prop}
    (hpass : ∀ s, P s → P (pass s)) (fuel : Nat) {s : TerminalSets} (h : P s) :
    P (settle pass fuel s).1 := by
  induction fuel generalizing s with
  | zero => exact h
  | succ fuel ih =>
    unfold settle
    dsimp only
    split
    · exact h
    · exact ih (hpass s h)

namespace TerminalSets

lemma ofList_fold {names : List String} {m : TerminalSets}
    (hn : (m.keys ++ names).Nodup) (hm : ∀ a n, n ∉ m.of a) :
    ((names.map fun a => (a, (∅ : IdSet))).foldl (fun m e => m.insert e.1 e.2) m).keys =
        m.keys ++ names ∧
      ∀ a n, n ∉
        ((names.map fun a => (a, (∅ : IdSet))).foldl (fun m e => m.insert e.1 e.2) m : TerminalSets).of
          a := by
  induction names generalizing m with
  | nil => simpa using hm
  | cons b names ih =>
    have hb : b ∉ m.keys := fun h => by
      have := (List.nodup_append.mp hn).2.2 b h b (by simp)
      exact this rfl
    have hkeys : (m.insert b (∅ : IdSet)).keys = m.keys ++ [b] :=
      OrderedMap.keys_insert_of_not_mem hb
    have hof : ∀ a n, n ∉ TerminalSets.of (m.insert b ∅) a := by
      intro a n hn
      rw [of, OrderedMap.get?_insert] at hn
      split at hn
      · exact IdSet.not_mem_empty n hn
      · exact hm a n hn
    have := ih (m := m.insert b ∅) (by simpa [hkeys] using hn) hof
    simpa [hkeys] using this

/-- Empty sets for the names. -/
lemma within_none {names : List String} (hn : names.Nodup) (bound : Nat) :
    (none names).Within names bound := by
  have hn' : ((∅ : TerminalSets).keys ++ names).Nodup := hn
  obtain ⟨hkeys, hof⟩ := ofList_fold hn' fun a n h => IdSet.not_mem_empty n h
  exact ⟨hkeys, fun a n h => absurd h (hof a n)⟩

lemma Within.grow {names : List String} {bound : Nat} {s : TerminalSets}
    (h : s.Within names bound) {a : String} {more : IdSet} (hmore : ∀ n ∈ more, n < bound) :
    (s.grow a more).Within names bound := by
  refine ⟨(keys_grow _ _ _).trans h.keys_eq, fun b n hn => ?_⟩
  by_cases ha : a ∈ s.keys
  · rcases (mem_of_grow_iff ha).mp hn with hn | ⟨-, hn⟩
    · exact h.lt b n hn
    · exact hmore n hn
  · have : s.get? a = .none := OrderedMap.get?_eq_none_iff.mpr ha
    rw [TerminalSets.grow, this] at hn
    exact h.lt b n hn

end TerminalSets

namespace Grammar

variable {g : Grammar}

lemma nodup_names (g : Grammar) : g.names.Nodup := g.index.nodup

lemma endOfInput_lt (g : Grammar) : endOfInput < g.terminals.size :=
  lt_size_of_terminal? g.terminal?_special.1

lemma epsilon_lt (g : Grammar) : epsilon < g.terminals.size :=
  lt_size_of_terminal? g.terminal?_special.2

/-! ### Leading terminals -/

/-- The leading terminals of a sequence that begins with a name. -/
lemma leading_nonTerminal {first : TerminalSets} {a : String} (ha : a ∈ first.keys)
    (ss : List Symbol) :
    (∀ n, n ∈ (g.leading first (.nonTerminal a :: ss)).terminals ↔
      n ∈ first.of a ∧ n ≠ epsilon ∨
        epsilon ∈ first.of a ∧ n ∈ (g.leading first ss).terminals) ∧
    ((g.leading first (.nonTerminal a :: ss)).ending = .vanishes ↔
      epsilon ∈ first.of a ∧ (g.leading first ss).ending = .vanishes) := by
  rw [leading, TerminalSets.get?_of_mem_keys ha]
  dsimp only
  by_cases he : epsilon ∈ first.of a
  · simp [he]
  · simp [he]

lemma lt_of_mem_leading {first : TerminalSets} {names : List String}
    (h : first.Within names g.terminals.size) (ss : List Symbol) :
    ∀ n ∈ (g.leading first ss).terminals, n < g.terminals.size := by
  induction ss with
  | nil => exact fun n hn => absurd hn (IdSet.not_mem_empty n)
  | cons s ss ih =>
    intro n hn
    cases s with
    | terminal t =>
      rw [leading] at hn
      split at hn
      · next m hm =>
        have : n = m := by simpa [EmptyCollection.emptyCollection] using hn
        rw [this]
        exact lt_size_of_terminal? (terminalNumber?_eq_some_iff.mp hm)
      · exact absurd hn (IdSet.not_mem_empty n)
    | nonTerminal a =>
      by_cases ha : a ∈ first.keys
      · rcases ((leading_nonTerminal ha _).1 n).mp hn with hn | hn
        · exact h.lt a n hn.1
        · exact ih n hn.2
      · rw [leading, OrderedMap.get?_eq_none_iff.mpr ha] at hn
        exact absurd hn (IdSet.not_mem_empty n)

/-! ### FIRST sets -/

/-- FIRST sets that meet the demand of every production. -/
structure FirstClosed (g : Grammar) (first : TerminalSets) : Prop where
  within : first.Within g.names g.terminals.size
  demand : ∀ i p, g.production? i = some p → ∀ n ∈ g.firstDemand first p, n ∈ first.of p.name

lemma lt_of_mem_firstDemand {first : TerminalSets} {names : List String}
    (h : first.Within names g.terminals.size) {p : Production} :
    ∀ n ∈ g.firstDemand first p, n < g.terminals.size := by
  intro n hn
  unfold firstDemand at hn
  dsimp only at hn
  split at hn
  · rcases IdSet.mem_insert.mp hn with rfl | hn
    · exact g.epsilon_lt
    · exact lt_of_mem_leading h _ n hn
  · exact lt_of_mem_leading h _ n hn

lemma firstPass_grows {names : List String} {s : TerminalSets}
    (h : s.Within names g.terminals.size) :
    s.Le (g.firstPass s) ∧ (g.firstPass s).Within names g.terminals.size := by
  refine foldl_invariant (P := fun t => s.Le t ∧ t.Within names g.terminals.size)
    ⟨.refl s, h⟩ fun t p _ ht => ?_
  exact ⟨ht.1.trans (t.le_grow _ _), ht.2.grow (lt_of_mem_firstDemand ht.2)⟩

/-- **The FIRST sets meet every demand.** -/
theorem firstSets_closed (g : Grammar) : g.FirstClosed g.firstSets.1 := by
  have hstart := TerminalSets.within_none g.nodup_names g.terminals.size
  obtain ⟨-, hw, hfix⟩ := settle_fixed (fun s hs => firstPass_grows hs) g.passBound _ hstart
    (by unfold passBound; omega)
  refine ⟨hw, fun i p hp n hn => ?_⟩
  have hmem : p ∈ g.productions.toList := Array.mem_toList_iff.mpr (Array.mem_of_getElem? hp)
  have hstep := foldl_fixed TerminalSets.Le.refl TerminalSets.Le.trans TerminalSets.Le.antisymm
    (fun s _ => s.le_grow _ _) hfix p hmem
  refine TerminalSets.mem_of_grow_eq ?_ hstep hn
  rw [hw.keys_eq]
  exact mem_names_iff.mpr ⟨i, p, hp, rfl⟩

/-- The FIRST sets hold members of one kind only, if sets of such members are demanded no others. -/
lemma firstSets_induction {Q : String → Nat → Prop}
    (demand : ∀ first : TerminalSets, (∀ a, ∀ n ∈ first.of a, Q a n) → ∀ k p,
      g.production? k = some p → ∀ n ∈ g.firstDemand first p, Q p.name n) :
    ∀ a, ∀ n ∈ g.firstSets.1.of a, Q a n := by
  refine settle_invariant (P := fun s => ∀ a, ∀ n ∈ s.of a, Q a n) (fun s hs => ?_) _ ?_
  · refine foldl_invariant (P := fun t : TerminalSets => ∀ a, ∀ n ∈ t.of a, Q a n) hs
      fun t p hp ht a n hn => ?_
    obtain ⟨k, hk⟩ := List.mem_iff_getElem?.mp hp
    rw [Array.getElem?_toList] at hk
    rcases TerminalSets.mem_of_mem_grow hn with hold | ⟨rfl, hmore⟩
    · exact ht a n hold
    · exact demand t ht k p hk n hmore
  · intro a n hn
    have hnone := (TerminalSets.within_none g.nodup_names 0).lt a n hn
    omega

lemma FirstClosed.mem_keys {first : TerminalSets} (h : g.FirstClosed first) {i : Nat}
    {p : Production} (hp : g.production? i = some p) : p.name ∈ first.keys := by
  rw [h.within.keys_eq]
  exact mem_names_iff.mpr ⟨i, p, hp, rfl⟩

/-- The number of the empty string is no token's column. -/
lemma ne_epsilon_of_isColumn {n : Nat} {x : Token} (h : g.IsColumn n (some x)) : n ≠ epsilon := by
  rintro rfl
  obtain ⟨t, ht, hacc⟩ := h
  cases Option.some.inj (g.terminal?_special.2.symm.trans ht)
  cases hacc

/-- What the leading terminals of symbols promise of a word: that the symbols can vanish if there
is none, and otherwise a column of its first token. -/
def Begins (g : Grammar) (first : TerminalSets) (ss : List Symbol) : List Token → Prop
  | [] => (g.leading first ss).ending = .vanishes
  | x :: _ => ∃ n ∈ (g.leading first ss).terminals, g.IsColumn n (some x)

/-- A production hands what begins its body on to its name. -/
lemma FirstClosed.begins_node {first : TerminalSets} (h : g.FirstClosed first) {i : Nat}
    {p : Production} (hp : g.production? i = some p) {w : List Token}
    (hw : g.Begins first p.body w) (ss : List Symbol) {w' : List Token}
    (hw' : g.Begins first ss w') : g.Begins first (.nonTerminal p.name :: ss) (w ++ w') := by
  obtain ⟨hmem, hend⟩ := leading_nonTerminal (g := g) (h.mem_keys hp) ss
  have demand := h.demand i p hp
  cases w with
  | nil =>
    have hvanish : (g.leading first p.body).ending = .vanishes := hw
    have he : epsilon ∈ first.of p.name := demand _ (by simp [firstDemand, hvanish])
    cases w' with
    | nil => exact hend.mpr ⟨he, hw'⟩
    | cons x w' =>
      obtain ⟨n, hn, hx⟩ := hw'
      exact ⟨n, (hmem n).mpr (.inr ⟨he, hn⟩), hx⟩
  | cons x w =>
    obtain ⟨n, hn, hx⟩ := hw
    refine ⟨n, (hmem n).mpr (.inl ⟨demand n ?_, ne_epsilon_of_isColumn hx⟩), hx⟩
    unfold firstDemand
    dsimp only
    split
    · exact IdSet.mem_insert.mpr (.inr hn)
    · exact hn

lemma begins_leaf {first : TerminalSets} {t : Terminal} (ht : t ∈ g.usedTerminals) {x : Token}
    (hx : t.accepts x.type x.text = true) (ss : List Symbol) (w : List Token) :
    g.Begins first (.terminal t :: ss) (x :: w) := by
  obtain ⟨n, hn⟩ := exists_terminalNumber? ht
  refine ⟨n, ?_, t, terminalNumber?_eq_some_iff.mp hn, hx⟩
  rw [leading, hn]
  exact IdSet.mem_insert.mpr (.inl rfl)

mutual

/-- The word of a tree begins what its name and more symbols derive. -/
lemma FirstClosed.begins_tree {first : TerminalSets} (h : g.FirstClosed first) :
    ∀ (t : Tree) {a : String}, g.Derives (.nonTerminal a) t → ∀ {ss : List Symbol}
      {w : List Token}, g.Begins first ss w → g.Begins first (.nonTerminal a :: ss) (t.word ++ w)
  | .leaf x, _, hd, _, _, _ => nomatch hd
  | .node _ ts, _, .node hp hs, ss, w, hw => by
    have hbody := h.begins_trees ts hs (fun u hu => mem_usedTerminals_iff.mpr ⟨_, _, hp, hu⟩)
      (show g.Begins first [] [] from rfl)
    rw [List.append_nil, List.append_nil] at hbody
    exact h.begins_node hp hbody ss hw

/-- The word of trees begins what their symbols and more symbols derive. -/
lemma FirstClosed.begins_trees {first : TerminalSets} (h : g.FirstClosed first) :
    ∀ (ts : List Tree) {ss : List Symbol}, g.DerivesAll ss ts →
      (∀ u, .terminal u ∈ ss → u ∈ g.usedTerminals) → ∀ {ss' : List Symbol} {w : List Token},
      g.Begins first ss' w → g.Begins first (ss ++ ss') (Tree.wordAll ts ++ w)
  | [], _, .nil, _, _, _, hw => hw
  | t :: ts, _, .cons (s := s) ht hs, hused, ss', w, hw => by
    have hrest := h.begins_trees ts hs (fun u hu => hused u (List.mem_cons_of_mem _ hu)) hw
    rw [Tree.wordAll, List.append_assoc, List.cons_append]
    cases s with
    | terminal u =>
      cases ht with
      | leaf hx => exact begins_leaf (hused u List.mem_cons_self) hx _ _
    | nonTerminal a => exact h.begins_tree t ht hrest

end

/-! ### FOLLOW sets -/

/-- FOLLOW sets that meet the demand of every production and of the end of the input. -/
structure FollowClosed (g : Grammar) (first follow : TerminalSets) : Prop where
  within : follow.Within g.names g.terminals.size
  start : endOfInput ∈ follow.of g.start
  leading : ∀ i p, g.production? i = some p → ∀ α a β, p.body = α ++ .nonTerminal a :: β →
    ∀ n ∈ (g.leading first β).terminals, n ∈ follow.of a
  vanishing : ∀ i p, g.production? i = some p → ∀ α a β, p.body = α ++ .nonTerminal a :: β →
    (g.leading first β).ending = .vanishes → ∀ n ∈ follow.of p.name, n ∈ follow.of a

/-- What a name before the symbols `β` of a production's body takes into its FOLLOW set. -/
def followDemand (g : Grammar) (first : TerminalSets) (name : String) (β : List Symbol)
    (s : TerminalSets) : IdSet :=
  let l := g.leading first β
  if l.ending = .vanishes then l.terminals.union (s.of name) else l.terminals

lemma followBody_nonTerminal {first : TerminalSets} {name a : String} {β : List Symbol}
    {s : TerminalSets} :
    g.followBody first name (.nonTerminal a :: β) s =
      g.followBody first name β (s.grow a (g.followDemand first name β s)) := rfl

lemma le_followBody (first : TerminalSets) (name : String) (body : List Symbol)
    (s : TerminalSets) : s.Le (g.followBody first name body s) := by
  induction body generalizing s with
  | nil => exact .refl s
  | cons x β ih =>
    cases x with
    | terminal t => exact ih s
    | nonTerminal a =>
      rw [followBody_nonTerminal]
      exact (s.le_grow a _).trans (ih _)

lemma within_followBody {first : TerminalSets} {names : List String}
    (hfirst : first.Within names g.terminals.size) (name : String) (body : List Symbol)
    {s : TerminalSets} (h : s.Within names g.terminals.size) :
    (g.followBody first name body s).Within names g.terminals.size := by
  induction body generalizing s with
  | nil => exact h
  | cons x β ih =>
    cases x with
    | terminal t => exact ih h
    | nonTerminal a =>
      rw [followBody_nonTerminal]
      refine ih (h.grow fun n hn => ?_)
      unfold followDemand at hn
      dsimp only at hn
      split at hn
      · rcases IdSet.mem_union.mp hn with hn | hn
        · exact lt_of_mem_leading hfirst _ n hn
        · exact h.lt name n hn
      · exact lt_of_mem_leading hfirst _ n hn

/-- Where a walk through a body adds nothing, every name in it has what the walk demands. -/
lemma mem_of_followBody_eq {first : TerminalSets} {name : String} {body : List Symbol}
    {s : TerminalSets} (h : g.followBody first name body s = s) {α : List Symbol} {a : String}
    {β : List Symbol} (hbody : body = α ++ .nonTerminal a :: β) (ha : a ∈ s.keys) :
    ∀ n ∈ g.followDemand first name β s, n ∈ s.of a := by
  induction α generalizing body with
  | nil =>
    subst hbody
    rw [List.nil_append, followBody_nonTerminal] at h
    have hgrow : s.grow a (g.followDemand first name β s) = s := by
      refine TerminalSets.Le.antisymm ?_ (s.le_grow a _)
      have := le_followBody (g := g) first name β (s.grow a (g.followDemand first name β s))
      rwa [h] at this
    exact fun n hn => TerminalSets.mem_of_grow_eq ha hgrow hn
  | cons x α ih =>
    subst hbody
    rw [List.cons_append] at h
    cases x with
    | terminal t =>
      have h' : g.followBody first name (α ++ .nonTerminal a :: β) s = s := h
      exact ih h' rfl
    | nonTerminal b =>
      rw [followBody_nonTerminal] at h
      have hgrow : s.grow b (g.followDemand first name (α ++ .nonTerminal a :: β) s) = s := by
        refine TerminalSets.Le.antisymm ?_ (s.le_grow b _)
        have := le_followBody (g := g) first name (α ++ .nonTerminal a :: β)
          (s.grow b (g.followDemand first name (α ++ .nonTerminal a :: β) s))
        rwa [h] at this
      rw [hgrow] at h
      exact ih h rfl

/-- What the FOLLOW sets are built from: the end of the input may stand behind the start symbol. -/
lemma within_endOfInput (g : Grammar) :
    ((TerminalSets.none g.names).grow g.start (IdSet.insert ∅ endOfInput)).Within g.names
      g.terminals.size := by
  refine (TerminalSets.within_none g.nodup_names g.terminals.size).grow fun n hn => ?_
  rcases IdSet.mem_insert.mp hn with rfl | hn
  · exact g.endOfInput_lt
  · exact absurd hn (IdSet.not_mem_empty n)

lemma followPass_grows {first : TerminalSets} {names : List String}
    (hfirst : first.Within names g.terminals.size) {s : TerminalSets}
    (h : s.Within names g.terminals.size) :
    s.Le (g.followPass first s) ∧ (g.followPass first s).Within names g.terminals.size := by
  refine foldl_invariant (P := fun t => s.Le t ∧ t.Within names g.terminals.size)
    ⟨.refl s, h⟩ fun t p _ ht => ?_
  exact ⟨ht.1.trans (le_followBody _ _ _ t), within_followBody hfirst _ _ ht.2⟩

/-- **The FOLLOW sets meet every demand.** -/
theorem followSets_closed {first : TerminalSets} (hfirst : g.FirstClosed first) :
    g.FollowClosed first (g.followSets first).1 := by
  have hnone := TerminalSets.within_none g.nodup_names g.terminals.size
  obtain ⟨hle, hw, hfix⟩ := settle_fixed (fun s hs => followPass_grows hfirst.within hs) g.passBound _
    g.within_endOfInput (by unfold passBound; omega)
  have hbodies := foldl_fixed TerminalSets.Le.refl TerminalSets.Le.trans TerminalSets.Le.antisymm
    (fun s _ => le_followBody _ _ _ s) hfix
  have demand : ∀ i p, g.production? i = some p → ∀ α a β, p.body = α ++ .nonTerminal a :: β →
      ∀ n ∈ g.followDemand first p.name β (g.followSets first).1,
        n ∈ (g.followSets first).1.of a := by
    intro i p hp α a β hbody
    have hmem : p ∈ g.productions.toList := Array.mem_toList_iff.mpr (Array.mem_of_getElem? hp)
    have ha : a ∈ g.names := mem_names_of_mem_body hp (by simp [hbody])
    refine mem_of_followBody_eq (hbodies p hmem) hbody ?_
    rwa [hw.keys_eq]
  refine ⟨hw, hle.2 _ _ ?_, fun i p hp α a β hbody n hn => ?_,
    fun i p hp α a β hbody hend n hn => ?_⟩
  · refine (TerminalSets.mem_of_grow_iff ?_).mpr (.inr ⟨rfl, IdSet.mem_insert.mpr (.inl rfl)⟩)
    rw [hnone.keys_eq]
    exact g.start_mem_names
  · refine demand i p hp α a β hbody n ?_
    unfold followDemand
    dsimp only
    split
    · exact IdSet.mem_union.mpr (.inl hn)
    · exact hn
  · refine demand i p hp α a β hbody n ?_
    rw [followDemand, if_pos hend]
    exact IdSet.mem_union.mpr (.inr hn)

/-- A walk through a body adds what is demanded at its names. -/
lemma followBody_induction {first : TerminalSets} {Q : String → Nat → Prop} {p : Production}
    (demand : ∀ follow : TerminalSets, (∀ a, ∀ n ∈ follow.of a, Q a n) → ∀ α a β,
      p.body = α ++ .nonTerminal a :: β → ∀ n ∈ g.followDemand first p.name β follow, Q a n)
    {rest : List Symbol} : ∀ {α : List Symbol} {s : TerminalSets}, p.body = α ++ rest →
      (∀ a, ∀ n ∈ s.of a, Q a n) → ∀ a, ∀ n ∈ (g.followBody first p.name rest s).of a, Q a n := by
  induction rest with
  | nil => exact fun _ h => h
  | cons x rest ih =>
    intro α s hbody h
    have hbody' : p.body = (α ++ [x]) ++ rest := by
      rw [hbody, List.append_assoc, List.singleton_append]
    cases x with
    | terminal t => exact ih hbody' h
    | nonTerminal a =>
      rw [followBody_nonTerminal]
      refine ih hbody' fun b n hn => ?_
      rcases TerminalSets.mem_of_mem_grow hn with hold | ⟨rfl, hmore⟩
      · exact h b n hold
      · exact demand s h α _ rest hbody n hmore

/-- The FOLLOW sets hold members of one kind only, if the end of the input is one for the start
symbol and sets of such members are demanded no others. -/
lemma followSets_induction {first : TerminalSets} {Q : String → Nat → Prop}
    (start : Q g.start endOfInput)
    (demand : ∀ follow : TerminalSets, (∀ a, ∀ n ∈ follow.of a, Q a n) → ∀ k p,
      g.production? k = some p → ∀ α a β, p.body = α ++ .nonTerminal a :: β →
      ∀ n ∈ g.followDemand first p.name β follow, Q a n) :
    ∀ a, ∀ n ∈ (g.followSets first).1.of a, Q a n := by
  refine settle_invariant (P := fun s => ∀ a, ∀ n ∈ s.of a, Q a n) (fun s hs => ?_) _ ?_
  · refine foldl_invariant (P := fun t : TerminalSets => ∀ a, ∀ n ∈ t.of a, Q a n) hs
      fun t p hp ht => ?_
    obtain ⟨k, hk⟩ := List.mem_iff_getElem?.mp hp
    rw [Array.getElem?_toList] at hk
    exact followBody_induction (fun follow h => demand follow h k p hk) (α := []) rfl ht
  · intro a n hn
    rcases TerminalSets.mem_of_mem_grow hn with hold | ⟨rfl, hmore⟩
    · have hnone := (TerminalSets.within_none g.nodup_names 0).lt a n hold
      omega
    · rcases IdSet.mem_insert.mp hmore with rfl | hmore
      · exact start
      · exact absurd hmore (IdSet.not_mem_empty n)

lemma firstFollow_closed (g : Grammar) :
    g.FirstClosed g.firstFollow.first ∧ g.FollowClosed g.firstFollow.first g.firstFollow.follow :=
  ⟨g.firstSets_closed, followSets_closed g.firstSets_closed⟩

end Grammar

end Coscript
