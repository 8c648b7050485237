import Coscript.Proofs.Viable

/-!
# Grammars without useless names

If every name of a grammar derives a tree and is used by what the start symbol derives, then nothing
in the FIRST and FOLLOW sets is there in vain: a terminal of a FIRST set begins the word of some
derivation tree, and a terminal of a FOLLOW set comes right after the name in some viable prefix.

* `Grammar.Productive`, `Grammar.Reduced`: grammars whose names derive trees, and are used as well;
* `Grammar.Reduced.firstSets_sound`, `Grammar.Reduced.followSets_sound`: the sets hold nothing else.
-/

namespace Coscript

namespace Grammar

variable {g : Grammar} {production : Nat}

/-- Names that are used by what the start symbol derives. -/
inductive Reachable (g : Grammar) : String → Prop
  | start : Reachable g g.start
  | body {a b : String} {i : Nat} {p : Production} (ha : Reachable g a)
    (hp : g.production? i = some p) (hname : p.name = a) (hb : .nonTerminal b ∈ p.body) :
    Reachable g b

/-- Every name derives a tree, and is used by what the start symbol derives. -/
structure Reduced (g : Grammar) : Prop where
  productive : ∀ a ∈ g.names, ∃ T, g.Derives (.nonTerminal a) T
  reachable : ∀ a ∈ g.names, g.Reachable a

/-- A used terminal of an ordinary grammar stands for some token. -/
lemma Ordinary.exists_token (hg : g.Ordinary) {t : Terminal} (ht : t ∈ g.usedTerminals) :
    ∃ x : Token, t.accepts x.type x.text = true := by
  cases t with
  | any type => exact ⟨⟨type, "", .start⟩, by simp [Terminal.accepts]⟩
  | literal type text => exact ⟨⟨type, text, .start⟩, by simp [Terminal.accepts]⟩
  | epsilon => exact absurd ht hg.2
  | endOfInput => exact absurd ht hg.1

/-- Every name derives a tree. -/
def Productive (g : Grammar) : Prop := ∀ a ∈ g.names, ∃ T, g.Derives (.nonTerminal a) T

/-- Every symbol of a body derives a tree. -/
lemma Productive.exists_derives (hprod : g.Productive) (ho : g.Ordinary) {i : Nat} {p : Production}
    (hp : g.production? i = some p) : ∀ x ∈ p.body, ∃ T, g.Derives x T := by
  intro x hx
  cases x with
  | terminal t =>
    obtain ⟨tok, htok⟩ := ho.exists_token (mem_usedTerminals_iff.mpr ⟨i, p, hp, hx⟩)
    exact ⟨_, .leaf htok⟩
  | nonTerminal a => exact hprod a (mem_names_of_mem_body hp hx)

lemma Reduced.exists_derives (hr : g.Reduced) (ho : g.Ordinary) {i : Nat} {p : Production}
    (hp : g.production? i = some p) : ∀ x ∈ p.body, ∃ T, g.Derives x T :=
  Productive.exists_derives hr.productive ho hp

lemma exists_derivesAll {xs : List Symbol} (h : ∀ x ∈ xs, ∃ T, g.Derives x T) :
    ∃ ts, g.DerivesAll xs ts := by
  induction xs with
  | nil => exact ⟨[], .nil⟩
  | cons x xs ih =>
    obtain ⟨T, hT⟩ := h x (by simp)
    obtain ⟨ts, hts⟩ := ih fun y hy => h y (by simp [hy])
    exact ⟨T :: ts, .cons hT hts⟩

/-! ### FIRST sets -/

/-- A FIRST set holds the empty string only if the name derives it, and a terminal only if it begins
a word that the name derives. -/
def FirstSound (g : Grammar) (first : TerminalSets) : Prop :=
  ∀ a, ∀ n ∈ first.of a,
    (n = epsilon → ∃ T, g.Derives (.nonTerminal a) T ∧ T.word = []) ∧
    (n ≠ epsilon → ∃ T x w, g.Derives (.nonTerminal a) T ∧ T.word = x :: w ∧
      g.IsColumn n (some x))

/-- A leading terminal begins a word of the symbols, and symbols that vanish derive the empty
word. -/
lemma FirstSound.leading {first : TerminalSets} (h : g.FirstSound first) {xs : List Symbol}
    (hxs : ∀ x ∈ xs, ∃ T, g.Derives x T) :
    ((g.leading first xs).ending = .vanishes →
      ∃ ts, g.DerivesAll xs ts ∧ Tree.wordAll ts = []) ∧
    ∀ n ∈ (g.leading first xs).terminals,
      ∃ ts x w, g.DerivesAll xs ts ∧ Tree.wordAll ts = x :: w ∧ g.IsColumn n (some x) := by
  induction xs with
  | nil => exact ⟨fun _ => ⟨[], .nil, rfl⟩, fun n hn => absurd hn (IdSet.not_mem_empty n)⟩
  | cons x xs ih =>
    obtain ⟨ihv, ihn⟩ := ih fun y hy => hxs y (by simp [hy])
    obtain ⟨us, hus⟩ := exists_derivesAll fun y hy => hxs y (List.mem_cons_of_mem x hy)
    cases x with
    | terminal t =>
      obtain ⟨T, hT⟩ := hxs _ List.mem_cons_self
      cases hT with
      | @leaf _ x hx =>
        rw [Grammar.leading]
        split
        · next n hn =>
          refine ⟨fun he => (by cases he), fun m hm => ?_⟩
          obtain rfl : m = n := by
            rcases IdSet.mem_insert.mp hm with he | hm
            · exact he
            · exact absurd hm (IdSet.not_mem_empty m)
          exact ⟨.leaf x :: us, x, Tree.wordAll us, .cons (.leaf hx) hus, rfl, t,
            terminalNumber?_eq_some_iff.mp hn, hx⟩
        · exact ⟨fun he => (by cases he), fun n hn => absurd hn (IdSet.not_mem_empty n)⟩
    | nonTerminal a =>
      by_cases ha : a ∈ first.keys
      · obtain ⟨hmem, hend⟩ := leading_nonTerminal (g := g) ha xs
        refine ⟨fun he => ?_, fun n hn => ?_⟩
        · obtain ⟨heps, he⟩ := hend.mp he
          obtain ⟨T, hT, hword⟩ := (h a _ heps).1 rfl
          obtain ⟨ts, hts, hwords⟩ := ihv he
          exact ⟨T :: ts, .cons hT hts, by rw [Tree.wordAll, hword, hwords]; rfl⟩
        · rcases (hmem n).mp hn with ⟨hn, hne⟩ | ⟨heps, hn⟩
          · obtain ⟨T, x, w, hT, hword, hcol⟩ := (h a n hn).2 hne
            exact ⟨T :: us, x, w ++ Tree.wordAll us, .cons hT hus,
              by rw [Tree.wordAll, hword]; rfl, hcol⟩
          · obtain ⟨T, hT, hword⟩ := (h a _ heps).1 rfl
            obtain ⟨ts, x, w, hts, hwords, hcol⟩ := ihn n hn
            exact ⟨T :: ts, x, w, .cons hT hts, by rw [Tree.wordAll, hword, hwords]; rfl, hcol⟩
      · rw [Grammar.leading, OrderedMap.get?_eq_none_iff.mpr ha]
        exact ⟨fun he => (by cases he), fun n hn => absurd hn (IdSet.not_mem_empty n)⟩

/-- What a production demands for sound FIRST sets is sound. -/
lemma FirstSound.demand (hr : g.Reduced) (ho : g.Ordinary) {first : TerminalSets}
    (h : g.FirstSound first) {k : Nat} {p : Production} (hp : g.production? k = some p) {n : Nat}
    (hn : n ∈ g.firstDemand first p) :
    (n = epsilon → ∃ T, g.Derives (.nonTerminal p.name) T ∧ T.word = []) ∧
    (n ≠ epsilon → ∃ T x w, g.Derives (.nonTerminal p.name) T ∧ T.word = x :: w ∧
      g.IsColumn n (some x)) := by
  obtain ⟨hv, hb⟩ := h.leading (hr.exists_derives ho hp)
  have hbegins : n ∈ (g.leading first p.body).terminals →
      (n = epsilon → ∃ T, g.Derives (.nonTerminal p.name) T ∧ T.word = []) ∧
      (n ≠ epsilon → ∃ T x w, g.Derives (.nonTerminal p.name) T ∧ T.word = x :: w ∧
        g.IsColumn n (some x)) := fun hmem => by
    obtain ⟨ts, x, w, hts, hword, hcol⟩ := hb n hmem
    exact ⟨fun he => absurd he (ne_epsilon_of_isColumn hcol),
      fun _ => ⟨_, x, w, .node hp hts, hword, hcol⟩⟩
  unfold firstDemand at hn
  dsimp only at hn
  split at hn
  · next hend =>
    rcases IdSet.mem_insert.mp hn with rfl | hn
    · obtain ⟨ts, hts, hword⟩ := hv hend
      exact ⟨fun _ => ⟨_, .node hp hts, hword⟩, fun hne => absurd rfl hne⟩
    · exact hbegins hn
  · exact hbegins hn

/-- **The FIRST sets hold nothing in vain.** -/
theorem Reduced.firstSets_sound (hr : g.Reduced) (ho : g.Ordinary) :
    g.FirstSound g.firstSets.1 :=
  firstSets_induction fun _ h _ _ hp _ hn => FirstSound.demand hr ho h hp hn

/-! ### Viable prefixes of reduced grammars -/

/-- The symbols that are still to come after a viable prefix derive trees. -/
lemma Viable.exists_derives (hprod : g.Productive) (ho : g.Ordinary) {ts : List Tree} {i : Item Unit}
    {β : List Symbol} (h : g.Viable production ts i β) :
    (∀ x ∈ i.remaining g, ∃ T, g.Derives x T) ∧ ∀ x ∈ β, ∃ T, g.Derives x T := by
  have hbody : ∀ (j : Item Unit), ∀ x ∈ j.remaining g, ∃ T, g.Derives x T := fun j x hx => by
    cases hp : g.production? j.production with
    | none => simp [Item.remaining, hp] at hx
    | some p =>
      rw [Item.remaining_eq hp] at hx
      exact hprod.exists_derives ho hp x (List.mem_of_mem_drop hx)
  refine ⟨hbody i, ?_⟩
  induction h with
  | start => simp
  | push _ _ _ ih => exact ih
  | @down ts i β a k _ ha _ ih =>
    intro x hx
    rcases List.mem_append.mp hx with hx | hx
    · exact hbody i x (by simp [Item.remaining_of_next? ha, hx])
    · exact ih x hx

/-- Trees for the next symbols of a body are pushed one after the other. -/
lemma Viable.pushAll {p : Production} {xs : List Symbol} {us : List Tree} (hus : g.DerivesAll xs us) :
    ∀ {ts : List Tree} {i : Item Unit} {β ys : List Symbol}, g.Viable production ts i β →
      g.production? i.production = some p → p.body.drop i.dot = xs ++ ys →
      g.Viable production (ts ++ us) ⟨i.production, i.dot + xs.length, ()⟩ β := by
  induction us generalizing xs with
  | nil =>
    cases hus
    intro ts i β ys h _ _
    simpa using h
  | cons U us ih =>
    cases hus with
    | @cons x _ xs _ hU hus =>
      intro ts i β ys h hp hdrop
      obtain ⟨hx, hrest⟩ := Item.next?_of_drop hp hdrop
      have hdrop' : p.body.drop i.advance.dot = xs ++ ys := by
        rw [Item.rest, hp, Option.map_some, Option.getD_some] at hrest
        exact hrest
      have := ih hus (h.push hx hU) hp hdrop'
      rw [List.append_assoc, List.singleton_append] at this
      rwa [List.length_cons, Nat.add_comm xs.length, ← Nat.add_assoc]

/-- The part of a body before a name is pushed, so that the name stands after the dot. -/
lemma Viable.before (hr : g.Reduced) (ho : g.Ordinary) {k : Nat} {p : Production}
    (hp : g.production? k = some p) {ts : List Tree} {β : List Symbol}
    (h : g.Viable production ts ⟨k, 0, ()⟩ β) {xs ys : List Symbol} {x : Symbol}
    (hbody : p.body = xs ++ x :: ys) :
    ∃ us, g.Viable production (ts ++ us) ⟨k, xs.length, ()⟩ β ∧
      Item.next? (⟨k, xs.length, ()⟩ : Item Unit) g = some x ∧
      Item.rest (⟨k, xs.length, ()⟩ : Item Unit) g = ys := by
  obtain ⟨us, hus⟩ : ∃ us, g.DerivesAll xs us := exists_derivesAll fun y hy =>
    hr.exists_derives ho hp y (by simp [hbody, hy])
  refine ⟨us, ?_, ?_, ?_⟩
  · have := Viable.pushAll hus h hp hbody
    rwa [Nat.zero_add] at this
  · rw [Item.next?, hp, Option.bind_some, hbody]
    simp
  · rw [Item.rest, hp, Option.map_some, Option.getD_some, hbody]
    simp

/-- Every production of a reachable name can be begun. -/
lemma Reachable.viable (hr : g.Reduced) (ho : g.Ordinary)
    (hp : g.startProduction = .ok production) {a : String} (h : g.Reachable a) :
    ∀ k ∈ g.productionsOf a, ∃ ts β, g.Viable production ts ⟨k, 0, ()⟩ β := by
  induction h with
  | start =>
    intro k hk
    obtain ⟨q, hq, hname⟩ := mem_productionsOf_iff.mp hk
    obtain ⟨-, -, -, honly⟩ := startProduction_spec hp
    obtain rfl := honly k q hq hname
    exact ⟨[], [], .start⟩
  | @body a b i p _ hpi hname hb ih =>
    intro k hk
    obtain ⟨ts, β, hv⟩ := ih i (mem_productionsOf_iff.mpr ⟨p, hpi, hname⟩)
    obtain ⟨xs, ys, hbody⟩ := List.append_of_mem hb
    obtain ⟨us, hv', hnext, -⟩ := hv.before hr ho hpi hbody
    exact ⟨_, _, hv'.down hnext hk⟩

/-! ### FOLLOW sets -/

/-- A terminal with this number comes right after the name in some viable prefix. -/
def Follows (g : Grammar) (production : Nat) (a : String) (n : Nat) : Prop :=
  ∃ ts i β vs x w, g.Viable production ts i β ∧ i.next? g = some (.nonTerminal a) ∧
    g.DerivesAll (i.rest g ++ β) vs ∧ Tree.wordAll vs = x :: w ∧ g.IsColumn n (some x)

/-- A FOLLOW set holds the end of the input, or terminals that come right after the name. -/
def FollowSound (g : Grammar) (production : Nat) (follow : TerminalSets) : Prop :=
  ∀ a, ∀ n ∈ follow.of a, n ≠ endOfInput → g.Follows production a n

/-- What a name takes into its FOLLOW set from a production comes right after it. -/
lemma FollowSound.demand (hr : g.Reduced) (ho : g.Ordinary)
    (hp : g.startProduction = .ok production) {first follow : TerminalSets}
    (hfirst : g.FirstSound first) (h : g.FollowSound production follow) {k : Nat} {p : Production}
    (hk : g.production? k = some p) {α β : List Symbol} {a : String}
    (hbody : p.body = α ++ .nonTerminal a :: β) {n : Nat}
    (hn : n ∈ g.followDemand first p.name β follow) (hne : n ≠ endOfInput) :
    g.Follows production a n := by
  have hmem := mem_productionsOf_iff.mpr ⟨p, hk, rfl⟩
  have hβ : ∀ x ∈ β, ∃ T, g.Derives x T := fun x hx =>
    hr.exists_derives ho hk x (by simp [hbody, hx])
  obtain ⟨hv, hb⟩ := hfirst.leading hβ
  have hleading : n ∈ (g.leading first β).terminals → g.Follows production a n := fun hmem' => by
    obtain ⟨us, x, w, hus, hword, hcol⟩ := hb n hmem'
    obtain ⟨ts, γ, hviable⟩ := (hr.reachable p.name (mem_names_iff.mpr ⟨k, p, hk, rfl⟩)).viable
      hr ho hp k hmem
    obtain ⟨as, hviable', hnext, hrest⟩ := hviable.before hr ho hk hbody
    obtain ⟨vs, hvs⟩ := exists_derivesAll (hviable'.exists_derives hr.productive ho).2
    refine ⟨_, _, _, us ++ vs, x, w ++ Tree.wordAll vs, hviable', hnext, ?_, ?_, hcol⟩
    · rw [hrest]
      exact hus.append hvs
    · rw [Tree.wordAll_append, hword]
      rfl
  unfold followDemand at hn
  dsimp only at hn
  split at hn
  · next hend =>
    rcases IdSet.mem_union.mp hn with hn | hn
    · exact hleading hn
    · obtain ⟨us, hus, hnil⟩ := hv hend
      obtain ⟨ts, i, γ, vs, x, w, hviable, hnext, hvs, hword, hcol⟩ := h p.name n hn hne
      obtain ⟨as, hviable', hnext', hrest⟩ := (hviable.down hnext hmem).before hr ho hk hbody
      refine ⟨_, _, _, us ++ vs, x, w, hviable', hnext', ?_, ?_, hcol⟩
      · rw [hrest]
        exact hus.append hvs
      · rw [Tree.wordAll_append, hnil, hword]
        rfl
  · exact hleading hn

/-- **The FOLLOW sets hold nothing in vain.** -/
theorem Reduced.followSets_sound (hr : g.Reduced) (ho : g.Ordinary)
    (hp : g.startProduction = .ok production) :
    g.FollowSound production g.firstFollow.follow := by
  have hfirst := hr.firstSets_sound ho
  have heq : g.firstFollow.follow = (g.followSets g.firstSets.1).1 := rfl
  rw [heq]
  exact followSets_induction (absurd rfl) fun _ h _ _ hk _ _ _ hbody _ hn hne =>
    FollowSound.demand hr ho hp hfirst h hk hbody hn hne

end Grammar

end Coscript
