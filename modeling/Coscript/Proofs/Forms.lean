import Coscript.Proofs.Expansion

/-!
# Sentential forms

A sequence of symbols is rewritten by replacing one of its names by the body of a production of that
name. The sequences that can be reached this way from a name are its sentential forms; whether they
can be rewritten further, down to tokens, does not matter. The FIRST and FOLLOW sets are about these
forms: a FIRST set holds the terminals that forms of the name begin with, a FOLLOW set the terminals
that stand right after the name in forms of any name, and the end of the input if the name stands at
the end of a form of the start symbol.

* `Grammar.Yields`: a sequence is rewritten to another one in any number of steps;
* `Grammar.yields_nil_iff`, `Grammar.corner_iff`: sequences that vanish, and what begins a sequence;
* `Grammar.follow_justified`, `Grammar.FollowsAll.rewrites`: FOLLOW sets hold nothing but what stands
  after a name in some form, and all of that;
* `Grammar.firstFollow_exact`: the sets and the leading terminals are exact.
-/

namespace Coscript

open Relation

namespace Grammar

variable {g : Grammar}

/-- One name in a sequence of symbols is replaced by the body of a production. -/
inductive Rewrites (g : Grammar) : List Symbol → List Symbol → Prop
  | step {k : Nat} {p : Production} (hp : g.production? k = some p) (α β : List Symbol) :
      Rewrites g (α ++ .nonTerminal p.name :: β) (α ++ (p.body ++ β))

/-- A sequence of symbols is rewritten to another one in any number of steps. -/
def Yields (g : Grammar) : List Symbol → List Symbol → Prop := ReflTransGen g.Rewrites

lemma Rewrites.context {xs ys : List Symbol} (h : g.Rewrites xs ys) (γ δ : List Symbol) :
    g.Rewrites (γ ++ xs ++ δ) (γ ++ ys ++ δ) := by
  cases h with
  | step hp α β =>
    have := Rewrites.step hp (γ ++ α) (β ++ δ)
    simpa only [List.append_assoc, List.cons_append] using this

namespace Yields

lemma refl (g : Grammar) (xs : List Symbol) : g.Yields xs xs := ReflTransGen.refl

lemma trans {xs ys zs : List Symbol} (h : g.Yields xs ys) (h' : g.Yields ys zs) : g.Yields xs zs :=
  ReflTransGen.trans h h'

/-- What is rewritten on its own is rewritten between other symbols. -/
lemma context {xs ys : List Symbol} (h : g.Yields xs ys) (γ δ : List Symbol) :
    g.Yields (γ ++ xs ++ δ) (γ ++ ys ++ δ) :=
  ReflTransGen.lift (fun zs => γ ++ zs ++ δ) (fun _ _ hstep => Rewrites.context hstep γ δ) _ _ h

lemma append {xs xs' ys ys' : List Symbol} (hx : g.Yields xs xs') (hy : g.Yields ys ys') :
    g.Yields (xs ++ ys) (xs' ++ ys') := by
  have hfront := hx.context [] ys
  have hback := hy.context xs' []
  rw [List.nil_append, List.nil_append] at hfront
  rw [List.append_nil, List.append_nil] at hback
  exact hfront.trans hback

/-- A name is rewritten to the body of each of its productions. -/
lemma body {k : Nat} {p : Production} (hp : g.production? k = some p) :
    g.Yields [.nonTerminal p.name] p.body := by
  have := Rewrites.step hp [] []
  rw [List.nil_append, List.nil_append, List.append_nil] at this
  exact ReflTransGen.single this

end Yields

/-! ### Sequences that vanish and what begins them -/

lemma vanishes_append_iff {xs ys : List Symbol} :
    g.Vanishes (xs ++ ys) ↔ g.Vanishes xs ∧ g.Vanishes ys := by
  constructor
  · intro h
    induction xs with
    | nil => exact ⟨.nil, h⟩
    | cons x xs ih =>
      cases h with
      | cons hp hbody h =>
        obtain ⟨hxs, hys⟩ := ih h
        exact ⟨.cons hp hbody hxs, hys⟩
  · exact fun h => h.1.append h.2

lemma corner_append_iff {n : Nat} {xs ys : List Symbol} :
    g.Corner n (xs ++ ys) ↔ g.Corner n xs ∨ g.Vanishes xs ∧ g.Corner n ys := by
  constructor
  · intro h
    induction xs with
    | nil => exact .inr ⟨.nil, h⟩
    | cons x xs ih =>
      cases h with
      | here ht => exact .inl (.here ht)
      | enter hp hbody => exact .inl (.enter hp hbody)
      | behind hx h =>
        rcases ih h with hxs | ⟨hxs, hys⟩
        · exact .inl (.behind hx hxs)
        · exact .inr ⟨hx.append hxs, hys⟩
  · rintro (h | ⟨hxs, hys⟩)
    · exact h.append ys
    · induction xs with
      | nil => exact hys
      | cons x xs ih =>
        obtain ⟨hx, hxs⟩ : g.Vanishes [x] ∧ g.Vanishes xs := vanishes_append_iff.mp hxs
        exact .behind hx (ih hxs)

/-- A sequence vanishes if it can be rewritten to one that does. -/
lemma Rewrites.vanishes {xs ys : List Symbol} (h : g.Rewrites xs ys) (hy : g.Vanishes ys) :
    g.Vanishes xs := by
  cases h with
  | step hp α β =>
    obtain ⟨hα, hrest⟩ := vanishes_append_iff.mp hy
    obtain ⟨hbody, hβ⟩ := vanishes_append_iff.mp hrest
    exact hα.append (.cons hp hbody hβ)

/-- What begins a sequence begins all those that are rewritten to it. -/
lemma Rewrites.corner {n : Nat} {xs ys : List Symbol} (h : g.Rewrites xs ys) (hy : g.Corner n ys) :
    g.Corner n xs := by
  cases h with
  | step hp α β =>
    rw [corner_append_iff, corner_append_iff] at hy
    refine corner_append_iff.mpr (hy.imp id fun ⟨hα, hrest⟩ => ⟨hα, ?_⟩)
    rcases hrest with hbody | ⟨hbody, hβ⟩
    · exact .enter hp hbody
    · exact .behind (.cons hp hbody .nil) hβ

/-- **The sequences that vanish** are those that are rewritten to the empty one. -/
theorem yields_nil_iff {xs : List Symbol} : g.Yields xs [] ↔ g.Vanishes xs := by
  constructor
  · intro h
    induction h using ReflTransGen.head_induction_on with
    | refl => exact .nil
    | head hstep _ ih => exact hstep.vanishes ih
  · intro h
    induction h with
    | nil => exact .refl g []
    | cons hp _ _ ihbody ihxs => exact ((Yields.body hp).trans ihbody).append ihxs

/-- **A terminal begins a sequence** if the sequence is rewritten to one whose first symbol it is. -/
theorem corner_iff {n : Nat} {t : Terminal} (ht : g.terminal? n = some t) {xs : List Symbol} :
    g.Corner n xs ↔ ∃ β, g.Yields xs (.terminal t :: β) := by
  constructor
  · intro h
    induction h with
    | @here u xs hu =>
      cases ht.symm.trans hu
      exact ⟨xs, .refl g _⟩
    | @enter k p xs hp _ ih =>
      obtain ⟨β, hβ⟩ := ih
      exact ⟨β ++ xs, ((Yields.body hp).trans hβ).append (.refl g xs)⟩
    | @behind x xs hx _ ih =>
      obtain ⟨β, hβ⟩ := ih
      exact ⟨β, (yields_nil_iff.mpr hx).append hβ⟩
  · rintro ⟨β, h⟩
    induction h using ReflTransGen.head_induction_on with
    | refl => exact .here ht
    | head hstep _ ih => exact hstep.corner ih

/-- Leading terminals have numbers. -/
lemma Corner.exists_terminal {n : Nat} {xs : List Symbol} (h : g.Corner n xs) :
    ∃ t, g.terminal? n = some t := by
  induction h with
  | here ht => exact ⟨_, ht⟩
  | enter _ _ ih => exact ih
  | behind _ _ ih => exact ih

/-! ### What stands after a name -/

/-- The terminal with a number stands right after a name in a form of some name. -/
def ComesAfter (g : Grammar) (n : Nat) (a : String) : Prop :=
  ∃ t, g.terminal? n = some t ∧ ∃ b ∈ g.names, ∃ α β,
    g.Yields [.nonTerminal b] (α ++ .nonTerminal a :: .terminal t :: β)

/-- A name stands at the end of a form of the start symbol. -/
def ComesLast (g : Grammar) (a : String) : Prop :=
  ∃ α, g.Yields [.nonTerminal g.start] (α ++ [.nonTerminal a])

/-- Where symbols in a body vanish behind a name, what stands after the body stands after the
name. -/
lemma Yields.uncover {k : Nat} {p : Production} (hp : g.production? k = some p)
    {α β : List Symbol} {a : String} (hbody : p.body = α ++ .nonTerminal a :: β)
    (hβ : g.Vanishes β) {xs γ δ : List Symbol} (h : g.Yields xs (γ ++ .nonTerminal p.name :: δ)) :
    g.Yields xs ((γ ++ α) ++ .nonTerminal a :: δ) := by
  have hname : g.Yields [.nonTerminal p.name] (α ++ [.nonTerminal a]) := by
    have hvanish := (Yields.refl g (α ++ [.nonTerminal a])).append (yields_nil_iff.mpr hβ)
    rw [List.append_nil, List.append_assoc, List.singleton_append, ← hbody] at hvanish
    exact (Yields.body hp).trans hvanish
  have := h.trans ((Yields.refl g γ).append (hname.append (.refl g δ)))
  simpa only [List.append_assoc, List.singleton_append, List.cons_append, List.nil_append] using this

/-- What a FOLLOW set may hold: the end of the input or terminals that stand after the name. -/
def Behind (g : Grammar) (a : String) (n : Nat) : Prop :=
  (n = endOfInput → g.ComesLast a) ∧ (n ≠ endOfInput → g.ComesAfter n a)

/-- **What a FOLLOW set holds stands after the name in some form.** -/
theorem follow_justified (ho : g.Ordinary) (a : String) :
    ∀ n ∈ g.firstFollow.follow.of a, g.Behind a n := by
  refine followSets_induction (Q := g.Behind) ⟨fun _ => ⟨[], .refl g _⟩, absurd rfl⟩ ?_ a
  intro follow h k p hp α a β hbody n hn
  have hplain : Plain β := (ho.plain hp).of_subset fun x hx => by simp [hbody, hx]
  have hleading : n ∈ (g.leading g.firstFollow.first β).terminals → g.Behind a n := by
    intro hmem
    have hcorner := (mem_leading_iff ho).mp hmem
    refine ⟨fun he => absurd he (hcorner.ne_special ho hplain).1, fun _ => ?_⟩
    obtain ⟨t, ht⟩ := hcorner.exists_terminal
    obtain ⟨δ, hδ⟩ := (corner_iff ht).mp hcorner
    refine ⟨t, ht, p.name, mem_names_iff.mpr ⟨k, p, hp, rfl⟩, α, δ, (Yields.body hp).trans ?_⟩
    rw [hbody]
    exact (Yields.refl g α).append ((Yields.refl g [.nonTerminal a]).append hδ)
  unfold followDemand at hn
  dsimp only at hn
  split at hn
  · next hend =>
    have hβ := (ending_leading_iff ho).mp hend
    rcases IdSet.mem_union.mp hn with hn | hn
    · exact hleading hn
    · obtain ⟨hlast, hafter⟩ := h p.name n hn
      constructor
      · intro he
        obtain ⟨γ, hγ⟩ := hlast he
        exact ⟨γ ++ α, hγ.uncover hp hbody hβ⟩
      · intro hne
        obtain ⟨t, ht, b, hb, γ, δ, hγ⟩ := hafter hne
        exact ⟨t, ht, b, hb, γ ++ α, δ, hγ.uncover hp hbody hβ⟩
  · exact hleading hn

/-- In a sequence each name has what begins the symbols behind it in its FOLLOW set, and if these
vanish, what is expected behind the whole sequence. -/
def FollowsAll (g : Grammar) (expected : Nat → Prop) (xs : List Symbol) : Prop :=
  ∀ γ a δ, xs = γ ++ .nonTerminal a :: δ →
    (∀ n, g.Corner n δ → n ∈ g.firstFollow.follow.of a) ∧
      (g.Vanishes δ → ∀ n, expected n → n ∈ g.firstFollow.follow.of a)

/-- A symbol of two joined sequences stands in one of them. -/
lemma append_eq_append_cons_iff {x : Symbol} {xs ys γ δ : List Symbol} :
    xs ++ ys = γ ++ x :: δ ↔
      (∃ μ, xs = γ ++ x :: μ ∧ δ = μ ++ ys) ∨ ∃ μ, γ = xs ++ μ ∧ ys = μ ++ x :: δ := by
  rw [List.append_eq_append_iff]
  constructor
  · rintro (⟨μ, rfl, rfl⟩ | ⟨μ, rfl, hμ⟩)
    · exact .inr ⟨μ, rfl, rfl⟩
    · cases μ with
      | nil => exact .inr ⟨[], by simp, by simpa using hμ.symm⟩
      | cons y μ =>
        rw [List.cons_append, List.cons.injEq] at hμ
        obtain ⟨rfl, rfl⟩ := hμ
        exact .inl ⟨μ, rfl, rfl⟩
  · rintro (⟨μ, rfl, rfl⟩ | ⟨μ, rfl, rfl⟩)
    · exact .inr ⟨x :: μ, rfl, rfl⟩
    · exact .inl ⟨μ, rfl, rfl⟩

/-- **Rewriting keeps what stands after names in their FOLLOW sets.** -/
theorem FollowsAll.rewrites (ho : g.Ordinary) {expected : Nat → Prop} {xs ys : List Symbol}
    (h : g.FollowsAll expected xs) (hstep : g.Rewrites xs ys) : g.FollowsAll expected ys := by
  have hclosed := g.firstFollow_closed.2
  cases hstep with
  | @step k p hp α β =>
    intro γ a δ hsplit
    rcases append_eq_append_cons_iff.mp hsplit with ⟨μ, rfl, rfl⟩ | ⟨ν, rfl, hrest⟩
    · -- The name stands before the one that is replaced.
      obtain ⟨hcorner, hvanish⟩ := h γ a (μ ++ .nonTerminal p.name :: β) (by simp)
      exact ⟨fun n hn => hcorner n ((Rewrites.step hp μ β).corner hn),
        fun hv => hvanish ((Rewrites.step hp μ β).vanishes hv)⟩
    · rcases append_eq_append_cons_iff.mp hrest with ⟨μ, hbody, rfl⟩ | ⟨μ, rfl, rfl⟩
      · -- It stands in the body that is put in.
        obtain ⟨hcorner, hvanish⟩ := h α p.name β rfl
        constructor
        · intro n hn
          rcases corner_append_iff.mp hn with hn | ⟨hv, hn⟩
          · exact hclosed.leading k p hp ν a μ hbody n ((mem_leading_iff ho).mpr hn)
          · exact hclosed.vanishing k p hp ν a μ hbody ((ending_leading_iff ho).mpr hv) n
              (hcorner n hn)
        · intro hv n hn
          obtain ⟨hv, hvβ⟩ := vanishes_append_iff.mp hv
          exact hclosed.vanishing k p hp ν a μ hbody ((ending_leading_iff ho).mpr hv) n
            (hvanish hvβ n hn)
      · -- It stands behind the one that is replaced.
        exact h (α ++ .nonTerminal p.name :: μ) a δ (by simp)

/-- Forms of a name have what stands after their names in the FOLLOW sets. -/
lemma followsAll_of_yields (ho : g.Ordinary) {expected : Nat → Prop} {b : String}
    (hb : ∀ n, expected n → n ∈ g.firstFollow.follow.of b) {xs : List Symbol}
    (h : g.Yields [.nonTerminal b] xs) : g.FollowsAll expected xs := by
  induction h with
  | refl =>
    intro γ a δ hsplit
    obtain ⟨rfl, hcons⟩ | ⟨-, hnil⟩ := List.singleton_eq_append_iff.mp hsplit
    · cases hcons
      exact ⟨fun n hn => (by cases hn), fun _ => hb⟩
    · cases hnil
  | tail _ hstep ih => exact ih.rewrites ho hstep

/-! ### The sets are exact -/

/-- Whether the grammar knows a symbol. -/
def Knows (g : Grammar) : Symbol → Prop
  | .terminal t => ∃ n, g.terminalNumber? t = some n
  | .nonTerminal a => a ∈ g.names

end Grammar

/-- Sets that hold what sentential forms show, and leading terminals that say what begins a
sequence. -/
structure FirstFollow.Exact (g : Grammar) (s : FirstFollow) : Prop where
  firstNames : s.first.keys = g.names
  followNames : s.follow.keys = g.names
  /-- The members of the sets are numbers of terminals. -/
  numbered : ∀ a n, n ∈ s.first.of a ∨ n ∈ s.follow.of a → ∃ t, g.terminal? n = some t
  first : ∀ a n t, g.terminal? n = some t → n ≠ Grammar.epsilon →
    (n ∈ s.first.of a ↔ ∃ β, g.Yields [.nonTerminal a] (.terminal t :: β))
  vanishing : ∀ a, Grammar.epsilon ∈ s.first.of a ↔ g.Yields [.nonTerminal a] []
  follow : ∀ a n t, g.terminal? n = some t → n ≠ Grammar.endOfInput →
    (n ∈ s.follow.of a ↔ ∃ b ∈ g.names, ∃ α β,
      g.Yields [.nonTerminal b] (α ++ .nonTerminal a :: .terminal t :: β))
  last : ∀ a, Grammar.endOfInput ∈ s.follow.of a ↔
    ∃ α, g.Yields [.nonTerminal g.start] (α ++ [.nonTerminal a])
  /-- A sequence of known symbols, written with or without empty elements, has an answer. -/
  leading : ∀ xs : List Element, (∀ x, .symbol x ∈ xs → g.Knows x) →
    let symbols := xs.filterMap Element.symbol?
    let l := g.leading s.first symbols
    (l.ending = .vanishes ∧ g.Yields symbols [] ∨ l.ending = .stops ∧ ¬ g.Yields symbols []) ∧
      ∀ n, n ∈ l.terminals ↔
        ∃ t, g.terminal? n = some t ∧ ∃ β, g.Yields symbols (.terminal t :: β)

namespace Grammar

variable {g : Grammar}

/-- **The FIRST sets hold what begins names**, and the empty string for names that vanish. -/
theorem mem_first_iff (ho : g.Ordinary) {a : String} {n : Nat} :
    n ∈ g.firstFollow.first.of a ↔
      n = epsilon ∧ g.Vanishes [.nonTerminal a] ∨ n ≠ epsilon ∧ g.Corner n [.nonTerminal a] := by
  have hclosed := g.firstFollow_closed.1
  constructor
  · intro h
    obtain ⟨hvanish, hcorner⟩ := firstSets_justified ho a n h
    by_cases hn : n = epsilon
    · exact .inl ⟨hn, hvanish hn⟩
    · exact .inr ⟨hn, hcorner hn⟩
  · rintro (⟨rfl, hvanish⟩ | ⟨hn, hcorner⟩)
    · cases hvanish with
      | @cons k p _ hp hbody _ =>
        refine hclosed.demand k p hp _ ?_
        simp [firstDemand, hbody.ending_leading]
    · have hmem := hcorner.mem_leading ho
      by_cases ha : a ∈ g.firstFollow.first.keys
      · rcases ((leading_nonTerminal (g := g) ha []).1 n).mp hmem with ⟨h, -⟩ | ⟨-, h⟩
        · exact h
        · exact absurd h (IdSet.not_mem_empty n)
      · rw [Grammar.leading, OrderedMap.get?_eq_none_iff.mpr ha] at hmem
        exact absurd hmem (IdSet.not_mem_empty n)

/-- Sequences of known symbols have an answer. -/
lemma ending_leading_known {xs : List Symbol} (h : ∀ x ∈ xs, g.Knows x) :
    (g.leading g.firstFollow.first xs).ending = .vanishes ∨
      (g.leading g.firstFollow.first xs).ending = .stops := by
  induction xs with
  | nil => exact .inl rfl
  | cons x xs ih =>
    have hx := h x List.mem_cons_self
    have hxs := ih fun y hy => h y (List.mem_cons_of_mem x hy)
    cases x with
    | terminal t =>
      obtain ⟨n, hn⟩ := hx
      rw [Grammar.leading, hn]
      exact .inr rfl
    | nonTerminal a =>
      have ha : a ∈ g.firstFollow.first.keys := g.firstFollow_closed.1.within.keys_eq ▸ hx
      rw [Grammar.leading, TerminalSets.get?_of_mem_keys ha]
      dsimp only
      split
      · exact hxs
      · exact .inr rfl

/-- **The FIRST and FOLLOW sets are exact**, and so are the leading terminals of sequences. -/
theorem firstFollow_exact (ho : g.Ordinary) : g.firstFollow.Exact g where
  firstNames := g.firstFollow_closed.1.within.keys_eq
  followNames := g.firstFollow_closed.2.within.keys_eq
  numbered a n h := by
    obtain ⟨hfirst, hfollow⟩ := g.firstFollow_closed
    exact Numbering.exists_get? (h.elim (hfirst.within.lt a n) (hfollow.within.lt a n))
  first a n t ht hn := by
    rw [mem_first_iff ho, ← corner_iff ht]
    simp [hn]
  vanishing a := by
    rw [mem_first_iff ho, yields_nil_iff]
    simp
  follow a n t ht hn := by
    constructor
    · intro h
      obtain ⟨t', ht', hafter⟩ := (follow_justified ho a n h).2 hn
      cases ht.symm.trans ht'
      exact hafter
    · rintro ⟨b, -, α, β, h⟩
      have hfollows : g.FollowsAll (fun _ => False) _ := followsAll_of_yields ho (by simp) h
      exact (hfollows α a (.terminal t :: β) rfl).1 n (.here ht)
  last a := by
    constructor
    · exact fun h => (follow_justified ho a _ h).1 rfl
    · rintro ⟨α, h⟩
      have hfollows : g.FollowsAll (fun n => n = endOfInput) _ :=
        followsAll_of_yields ho (fun n hn => hn ▸ g.firstFollow_closed.2.start) h
      exact (hfollows α a [] rfl).2 .nil _ rfl
  leading xs hxs := by
    have hsymbols : ∀ x ∈ xs.filterMap Element.symbol?, g.Knows x := fun x hx => by
      obtain ⟨e, he, hex⟩ := List.mem_filterMap.mp hx
      cases e with
      | symbol y =>
        cases hex
        exact hxs _ he
      | empty => cases hex
    have hknown := ending_leading_known hsymbols
    dsimp only
    constructor
    · rw [yields_nil_iff, ← ending_leading_iff ho]
      rcases hknown with h | h
      · exact .inl ⟨h, h⟩
      · exact .inr ⟨h, by simp [h]⟩
    · intro n
      rw [mem_leading_iff ho]
      constructor
      · intro h
        obtain ⟨t, ht⟩ := h.exists_terminal
        exact ⟨t, ht, (corner_iff ht).mp h⟩
      · rintro ⟨t, ht, h⟩
        exact (corner_iff ht).mpr h

/-- A list of `a` that may be empty, a name that derives nothing, and `x`. -/
def blockedRules : Array Production :=
  let letter (c : String) : Symbol := .terminal (.literal .identifier c)
  #[⟨"Z", [.nonTerminal "List", .nonTerminal "None", letter "x"]⟩,
    ⟨"List", [.nonTerminal "List", letter "a"]⟩, ⟨"List", []⟩, ⟨"None", [.nonTerminal "None"]⟩]

/-- A grammar in which a name that derives nothing keeps two others apart. -/
def blocked : Grammar :=
  ⟨"Z", blockedRules, indexOf blockedRules, terminalsOf blockedRules, rfl, rfl, by decide +kernel,
    by decide +kernel⟩

/-- Some form of the start symbol begins with `a`, but in none does `x` stand right after the
list. -/
theorem firstFollow_exact_blocked : blocked.Ordinary ∧ blocked.firstFollow.Exact blocked ∧
    (∃ β, blocked.Yields [.nonTerminal "Z"] (.terminal (.literal .identifier "a") :: β)) ∧
    ¬ ∃ b ∈ blocked.names, ∃ α β, blocked.Yields [.nonTerminal b]
      (α ++ .nonTerminal "List" :: .terminal (.literal .identifier "x") :: β) := by
  have ho : blocked.Ordinary := by decide +kernel
  have hexact := firstFollow_exact ho
  refine ⟨ho, hexact, ?_, ?_⟩
  · exact (hexact.first "Z" 3 _ (by decide +kernel) (by decide)).mp (by decide +kernel)
  · rw [← hexact.follow "List" 2 _ (by decide +kernel) (by decide)]
    decide +kernel

end Grammar

end Coscript
