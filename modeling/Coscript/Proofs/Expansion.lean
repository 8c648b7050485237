import Coscript.Proofs.Reduced
import Coscript.Proofs.ValidItems

/-!
# What begins a sequence of symbols

A terminal begins a sequence of symbols if it is the first one, or begins the body of a production
of the first one, or begins the rest of the sequence and the first symbol can vanish. This is about
the left corner of a derivation only: whether the derivation can be completed does not matter, and
neither does it for the FIRST sets. So the leading terminals of a sequence are exactly those that
begin it, also in grammars with names that derive nothing.

An item **expects** a terminal that begins what is left of its body, and its own lookahead if all of
that can vanish. The lookaheads of the items that it implies are what it expects behind the name
after its dot.

* `Grammar.mem_leading_iff`, `Grammar.ending_leading_iff`: leading terminals and vanishing sequences;
* `Discipline.mem_lookaheadsBehind_iff`: the lookaheads of implied items;
* `Grammar.Open`: grammars in which something may stand behind every name.
-/

namespace Coscript

namespace Grammar

variable {g : Grammar}

/-- Sequences of names that all derive the empty string. -/
inductive Vanishes (g : Grammar) : List Symbol → Prop
  | nil : Vanishes g []
  | cons {k : Nat} {p : Production} {xs : List Symbol} (hp : g.production? k = some p)
      (hbody : Vanishes g p.body) (hxs : Vanishes g xs) : Vanishes g (.nonTerminal p.name :: xs)

/-- The terminal with a number begins a sequence of symbols. -/
inductive Corner (g : Grammar) (n : Nat) : List Symbol → Prop
  | here {t : Terminal} {xs : List Symbol} (ht : g.terminal? n = some t) :
      Corner g n (.terminal t :: xs)
  | enter {k : Nat} {p : Production} {xs : List Symbol} (hp : g.production? k = some p)
      (hbody : Corner g n p.body) : Corner g n (.nonTerminal p.name :: xs)
  | behind {x : Symbol} {xs : List Symbol} (hx : Vanishes g [x]) (hxs : Corner g n xs) :
      Corner g n (x :: xs)

lemma Vanishes.append {xs ys : List Symbol} (hx : g.Vanishes xs) (hy : g.Vanishes ys) :
    g.Vanishes (xs ++ ys) := by
  induction hx with
  | nil => exact hy
  | cons hp hbody _ _ ih => exact .cons hp hbody ih

lemma Corner.append {n : Nat} {xs : List Symbol} (h : g.Corner n xs) (ys : List Symbol) :
    g.Corner n (xs ++ ys) := by
  induction h with
  | here ht => exact .here ht
  | enter hp hbody _ => exact .enter hp hbody
  | behind hx _ ih => exact .behind hx ih

/-- The terminals of a sequence of symbols stand for tokens. -/
def Plain (xs : List Symbol) : Prop := .terminal .endOfInput ∉ xs ∧ .terminal .epsilon ∉ xs

lemma Ordinary.plain (ho : g.Ordinary) {k : Nat} {p : Production} (hp : g.production? k = some p) :
    Plain p.body :=
  ⟨fun h => ho.1 (mem_usedTerminals_iff.mpr ⟨k, p, hp, h⟩),
    fun h => ho.2 (mem_usedTerminals_iff.mpr ⟨k, p, hp, h⟩)⟩

lemma Plain.of_subset {xs ys : List Symbol} (h : Plain ys) (hxs : ∀ x ∈ xs, x ∈ ys) : Plain xs :=
  ⟨fun hx => h.1 (hxs _ hx), fun hx => h.2 (hxs _ hx)⟩

lemma Plain.tail {x : Symbol} {xs : List Symbol} (h : Plain (x :: xs)) : Plain xs :=
  h.of_subset fun _ => List.mem_cons_of_mem x

/-- What begins a sequence of symbols is a token. -/
lemma Corner.ne_special (ho : g.Ordinary) {n : Nat} {xs : List Symbol} (h : g.Corner n xs)
    (hxs : Plain xs) : n ≠ endOfInput ∧ n ≠ epsilon := by
  induction h with
  | @here t xs ht =>
    constructor
    · rintro rfl
      rw [g.terminal?_special.1] at ht
      cases ht
      exact hxs.1 List.mem_cons_self
    · rintro rfl
      rw [g.terminal?_special.2] at ht
      cases ht
      exact hxs.2 List.mem_cons_self
  | enter hp _ ih => exact ih (ho.plain hp)
  | behind _ _ ih => exact ih hxs.tail

/-! ### Leading terminals -/

/-- FIRST sets that hold nothing but what begins names. -/
def FirstJustified (g : Grammar) (first : TerminalSets) : Prop :=
  ∀ a, ∀ n ∈ first.of a,
    (n = epsilon → g.Vanishes [.nonTerminal a]) ∧ (n ≠ epsilon → g.Corner n [.nonTerminal a])

/-- The leading terminals of a sequence begin it. -/
lemma FirstJustified.leading {first : TerminalSets} (h : g.FirstJustified first)
    (xs : List Symbol) :
    ((g.leading first xs).ending = .vanishes → g.Vanishes xs) ∧
      ∀ n ∈ (g.leading first xs).terminals, g.Corner n xs := by
  induction xs with
  | nil => exact ⟨fun _ => .nil, fun n hn => absurd hn (IdSet.not_mem_empty n)⟩
  | cons x xs ih =>
    obtain ⟨ihv, ihn⟩ := ih
    cases x with
    | terminal t =>
      rw [Grammar.leading]
      split
      · next n hn =>
        refine ⟨fun he => (by cases he), ?_⟩
        intro m hm
        rcases IdSet.mem_insert.mp hm with rfl | hm
        · exact .here (terminalNumber?_eq_some_iff.mp hn)
        · exact absurd hm (IdSet.not_mem_empty m)
      · exact ⟨fun he => (by cases he), fun n hn => absurd hn (IdSet.not_mem_empty n)⟩
    | nonTerminal a =>
      by_cases ha : a ∈ first.keys
      · obtain ⟨hmem, hend⟩ := leading_nonTerminal (g := g) ha xs
        constructor
        · intro he
          obtain ⟨heps, he⟩ := hend.mp he
          exact ((h a _ heps).1 rfl).append (ihv he)
        · intro n hn
          rcases (hmem n).mp hn with ⟨hn, hne⟩ | ⟨heps, hn⟩
          · exact ((h a n hn).2 hne).append xs
          · exact .behind ((h a _ heps).1 rfl) (ihn n hn)
      · rw [Grammar.leading, OrderedMap.get?_eq_none_iff.mpr ha]
        exact ⟨fun he => (by cases he), fun n hn => absurd hn (IdSet.not_mem_empty n)⟩

/-- What a production demands for justified FIRST sets is justified. -/
lemma FirstJustified.demand (ho : g.Ordinary) {first : TerminalSets} (h : g.FirstJustified first)
    {k : Nat} {p : Production} (hp : g.production? k = some p) {n : Nat}
    (hn : n ∈ g.firstDemand first p) :
    (n = epsilon → g.Vanishes [.nonTerminal p.name]) ∧
      (n ≠ epsilon → g.Corner n [.nonTerminal p.name]) := by
  obtain ⟨hv, hb⟩ := h.leading p.body
  have hbegins : n ∈ (g.leading first p.body).terminals →
      (n = epsilon → g.Vanishes [.nonTerminal p.name]) ∧
        (n ≠ epsilon → g.Corner n [.nonTerminal p.name]) := by
    intro hmem
    have hcorner := hb n hmem
    exact ⟨fun he => absurd he (hcorner.ne_special ho (ho.plain hp)).2,
      fun _ => .enter hp hcorner⟩
  unfold firstDemand at hn
  dsimp only at hn
  split at hn
  · next hend =>
    rcases IdSet.mem_insert.mp hn with rfl | hn
    · exact ⟨fun _ => .cons hp (hv hend) .nil, fun hne => absurd rfl hne⟩
    · exact hbegins hn
  · exact hbegins hn

/-- The FIRST sets hold nothing but what begins names. -/
lemma firstSets_justified (ho : g.Ordinary) : g.FirstJustified g.firstFollow.first :=
  firstSets_induction fun _ h _ _ hp _ hn => FirstJustified.demand ho h hp hn

/-- Names that can vanish have the empty string in their FIRST sets. -/
lemma Vanishes.ending_leading {xs : List Symbol} (h : g.Vanishes xs) :
    (g.leading g.firstFollow.first xs).ending = .vanishes := by
  have hclosed := g.firstFollow_closed.1
  induction h with
  | nil => rfl
  | @cons k p xs hp _ _ ihbody ihxs =>
    obtain ⟨-, hend⟩ := leading_nonTerminal (g := g) (hclosed.mem_keys hp) xs
    refine hend.mpr ⟨hclosed.demand k p hp _ ?_, ihxs⟩
    simp [firstDemand, ihbody]

/-- **The sequences that can vanish.** -/
theorem ending_leading_iff (ho : g.Ordinary) {xs : List Symbol} :
    (g.leading g.firstFollow.first xs).ending = .vanishes ↔ g.Vanishes xs :=
  ⟨((firstSets_justified ho).leading xs).1, Vanishes.ending_leading⟩

/-- What begins a sequence is one of its leading terminals. -/
lemma Corner.mem_leading (ho : g.Ordinary) {n : Nat} {xs : List Symbol} (h : g.Corner n xs) :
    n ∈ (g.leading g.firstFollow.first xs).terminals := by
  have hclosed := g.firstFollow_closed.1
  induction h with
  | @here t xs ht =>
    rw [leading, terminalNumber?_eq_some_iff.mpr ht]
    exact IdSet.mem_insert.mpr (.inl rfl)
  | @enter k p xs hp hbody ih =>
    obtain ⟨hmem, -⟩ := leading_nonTerminal (g := g) (hclosed.mem_keys hp) xs
    refine (hmem n).mpr (.inl ⟨hclosed.demand k p hp n ?_, (hbody.ne_special ho (ho.plain hp)).2⟩)
    unfold firstDemand
    dsimp only
    split
    · exact IdSet.mem_insert.mpr (.inr ih)
    · exact ih
  | @behind x xs hx hxs ih =>
    cases hx with
    | @cons k p _ hp hbody _ =>
      obtain ⟨hmem, -⟩ := leading_nonTerminal (g := g) (hclosed.mem_keys hp) xs
      refine (hmem n).mpr (.inr ⟨hclosed.demand k p hp _ ?_, ih⟩)
      simp [firstDemand, hbody.ending_leading]

/-- **The leading terminals of a sequence are those that begin it.** -/
theorem mem_leading_iff (ho : g.Ordinary) {n : Nat} {xs : List Symbol} :
    n ∈ (g.leading g.firstFollow.first xs).terminals ↔ g.Corner n xs :=
  ⟨((firstSets_justified ho).leading xs).2 n, fun h => h.mem_leading ho⟩

/-! ### What items expect -/

/-- A terminal that begins some symbols, or a lookahead behind them if they can vanish. -/
def Expects (g : Grammar) (z : Nat) (xs : List Symbol) (lookahead : Nat) : Prop :=
  g.Corner z xs ∨ g.Vanishes xs ∧ lookahead = z

/-- **The lookaheads of the items that an item implies** are what it expects behind the name after
its dot. -/
theorem mem_lookaheadsBehind_iff (ho : g.Ordinary) {i : Item Nat} {z : Nat} :
    z ∈ Discipline.lookaheadsBehind g g.firstFollow i ↔ g.Expects z (i.rest g) i.lookahead := by
  unfold Discipline.lookaheadsBehind Expects
  dsimp only
  rw [← mem_leading_iff ho, ← ending_leading_iff ho]
  split
  · next hend =>
    rw [IdSet.mem_insert]
    constructor
    · rintro (rfl | h)
      · exact .inr ⟨hend, rfl⟩
      · exact .inl h
    · rintro (h | ⟨-, rfl⟩)
      · exact .inr h
      · exact .inl rfl
  · next hend =>
    constructor
    · exact .inl
    · rintro (h | ⟨h, -⟩)
      · exact h
      · exact absurd h hend

/-! ### Grammars in which something may stand behind every name -/

/-- What stands behind a name in a production that is used can vanish or begins with some
terminal. -/
def Open (g : Grammar) : Prop :=
  ∀ k p, g.production? k = some p → g.Reachable p.name →
    ∀ α a β, p.body = α ++ .nonTerminal a :: β →
      (g.leading g.firstFollow.first β).ending = .vanishes ∨
        ∃ n, n ∈ (g.leading g.firstFollow.first β).terminals

/-- Whether there are empty FIRST sets can be computed. -/
lemma exists_first_of_all
    (h : g.names.all (fun a => !(g.firstFollow.first.of a).toList.isEmpty) = true) :
    ∀ a ∈ g.names, ∃ n, n ∈ g.firstFollow.first.of a := by
  intro a ha
  have hne := List.all_eq_true.mp h a ha
  cases hlist : (g.firstFollow.first.of a).toList with
  | nil => simp [hlist] at hne
  | cons n ns => exact ⟨n, by rw [IdSet.mem_def, hlist]; exact List.mem_cons_self⟩

/-- Without empty FIRST sets, symbols that stand together in a body can vanish or begin with some
terminal. -/
lemma leading_of_first (h : ∀ a ∈ g.names, ∃ n, n ∈ g.firstFollow.first.of a) {k : Nat}
    {p : Production} (hp : g.production? k = some p) {β : List Symbol} (hβ : ∀ x ∈ β, x ∈ p.body) :
    (g.leading g.firstFollow.first β).ending = .vanishes ∨
      ∃ n, n ∈ (g.leading g.firstFollow.first β).terminals := by
  induction β with
  | nil => exact .inl rfl
  | cons x β ih =>
    cases x with
    | terminal t =>
      obtain ⟨n, hn⟩ := exists_terminalNumber?
        (mem_usedTerminals_iff.mpr ⟨k, p, hp, hβ _ List.mem_cons_self⟩)
      refine .inr ⟨n, ?_⟩
      rw [leading, hn]
      exact IdSet.mem_insert.mpr (.inl rfl)
    | nonTerminal b =>
      have hb := mem_names_of_mem_body hp (hβ _ List.mem_cons_self)
      have hkeys : b ∈ g.firstFollow.first.keys := by
        rw [g.firstFollow_closed.1.within.keys_eq]
        exact hb
      obtain ⟨hmem, hend⟩ := leading_nonTerminal (g := g) hkeys β
      obtain ⟨n, hn⟩ := h b hb
      by_cases hne : n = epsilon
      · subst hne
        rcases ih fun y hy => hβ y (List.mem_cons_of_mem _ hy) with hv | ⟨m, hm⟩
        · exact .inl (hend.mpr ⟨hn, hv⟩)
        · exact .inr ⟨m, (hmem m).mpr (.inr ⟨hn, hm⟩)⟩
      · exact .inr ⟨n, (hmem n).mpr (.inl ⟨hn, hne⟩)⟩

/-- A grammar without empty FIRST sets is open. -/
theorem open_of_first (h : ∀ a ∈ g.names, ∃ n, n ∈ g.firstFollow.first.of a) : g.Open := by
  intro k p hp _ α a β hbody
  refine leading_of_first h hp ?_
  intro x hx
  rw [hbody]
  simp [hx]

end Grammar

end Coscript
