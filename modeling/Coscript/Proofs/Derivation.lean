import Coscript.Parse.Tree
import Coscript.Proofs.Grammar

/-!
# Derivation trees

A tree is a derivation from a symbol if its leaves are tokens that the terminals over them accept,
and every inner node applies a production of its name to its children. The tokens of a derivation
tree of the start symbol, from left to right, are a sentence of the grammar.
-/

namespace Coscript

mutual

/-- Derivation trees of a symbol. -/
inductive Grammar.Derives (g : Grammar) : Symbol → Tree → Prop
  | leaf {t : Terminal} {x : Token} (h : t.accepts x.type x.text = true) :
    Derives g (.terminal t) (.leaf x)
  | node {i : Nat} {p : Production} {ts : List Tree} (hp : g.production? i = some p)
      (h : DerivesAll g p.body ts) : Derives g (.nonTerminal p.name) (.node p.name ts)

/-- Derivation trees of symbols, one for one. -/
inductive Grammar.DerivesAll (g : Grammar) : List Symbol → List Tree → Prop
  | nil : DerivesAll g [] []
  | cons {s : Symbol} {t : Tree} {ss : List Symbol} {ts : List Tree} (h : Derives g s t)
      (hs : DerivesAll g ss ts) : DerivesAll g (s :: ss) (t :: ts)

end

namespace Grammar

variable {g : Grammar}

lemma DerivesAll.length_eq {ss : List Symbol} {ts : List Tree} (h : g.DerivesAll ss ts) :
    ts.length = ss.length := by
  induction ts generalizing ss with
  | nil => cases h; rfl
  | cons t ts ih =>
    cases h with
    | cons _ hs => simp [ih hs]

lemma DerivesAll.append {ss ss' : List Symbol} {ts ts' : List Tree} (h : g.DerivesAll ss ts)
    (h' : g.DerivesAll ss' ts') : g.DerivesAll (ss ++ ss') (ts ++ ts') := by
  induction ts generalizing ss with
  | nil => cases h; exact h'
  | cons t ts ih =>
    cases h with
    | cons ht hs => exact .cons ht (ih hs)

lemma Derives.isNode {a : String} {t : Tree} (h : g.Derives (.nonTerminal a) t) :
    ∃ i p ts, g.production? i = some p ∧ p.name = a ∧ t = .node a ts ∧ g.DerivesAll p.body ts := by
  cases h with
  | node hp hs => exact ⟨_, _, _, hp, rfl, rfl, hs⟩

/-- Derivation trees of one terminal are one token that it accepts. -/
lemma DerivesAll.exists_leaf {y : Terminal} {ts : List Tree}
    (h : g.DerivesAll [.terminal y] ts) : ∃ z, ts = [.leaf z] ∧ y.accepts z.type z.text = true := by
  cases h with
  | cons h hs =>
    cases hs
    cases h with
    | leaf hz => exact ⟨_, rfl, hz⟩

mutual

/-- The tokens of a tree for a used symbol are in columns. -/
lemma Derives.exists_column_of_used : ∀ {s : Symbol} {t : Tree}, g.Derives s t →
    (∀ u, s = .terminal u → u ∈ g.usedTerminals) → ∀ x ∈ t.word, ∃ n, g.IsColumn n (some x)
  | _, .leaf y, .leaf (t := u) h, hs, x, hx => by
    obtain rfl : x = y := List.mem_singleton.mp hx
    obtain ⟨n, hn⟩ := exists_terminal?_iff.mpr (.inr (.inr (hs u rfl)))
    exact ⟨n, u, hn, h⟩
  | _, .node _ ts, .node (p := p) hp h, _, x, hx =>
    h.exists_column (fun _ hu => mem_usedTerminals_iff.mpr ⟨_, p, hp, hu⟩) x hx

/-- The tokens of trees for used symbols are in columns. -/
lemma DerivesAll.exists_column : ∀ {ss : List Symbol} {ts : List Tree}, g.DerivesAll ss ts →
    (∀ u, .terminal u ∈ ss → u ∈ g.usedTerminals) →
    ∀ x ∈ Tree.wordAll ts, ∃ n, g.IsColumn n (some x)
  | _, [], .nil, _, _, hx => absurd hx List.not_mem_nil
  | _, t :: ts, .cons h hs, hu, x, hx => by
    rcases List.mem_append.mp hx with hx | hx
    · exact h.exists_column_of_used (fun u he => hu u (by simp [he])) x hx
    · exact hs.exists_column (fun u he => hu u (List.mem_cons_of_mem _ he)) x hx

end

/-- **The tokens of a derivation tree are in columns.** -/
theorem Derives.exists_column {a : String} {t : Tree} (h : g.Derives (.nonTerminal a) t) :
    ∀ x ∈ t.word, ∃ n, g.IsColumn n (some x) :=
  h.exists_column_of_used fun _ he => by cases he

end Grammar

namespace Tree

@[simp] lemma wordAll_append (ts us : List Tree) :
    wordAll (ts ++ us) = wordAll ts ++ wordAll us := by
  induction ts with
  | nil => rfl
  | cons t ts ih => simp [wordAll, ih]

@[simp] lemma sizeAll_append (ts us : List Tree) : sizeAll (ts ++ us) = sizeAll ts + sizeAll us := by
  induction ts with
  | nil => simp [sizeAll]
  | cons t ts ih => simp [sizeAll, ih, Nat.add_assoc]

end Tree

end Coscript
