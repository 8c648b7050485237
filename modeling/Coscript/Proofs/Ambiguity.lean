import Coscript.Proofs.Agreement
import Mathlib.Logic.Relation

/-!
# Ambiguous grammars

A grammar with a table has nearly one derivation tree for each sentence. The parser makes the same
moves along all derivation trees of a sentence, so that two of them of the same size are the same, and
a larger one grows out of a smaller one: the smaller one is a part of it.

That one tree is a part of another one with the same leaves is no conflict between entries of the
table. It takes a start symbol that derives itself, with nothing around it. So a grammar whose start
symbol stands in no body is not ambiguous, if it has a table.

* `Tree.Inside`: the proper parts of a tree;
* `Strategy.derivations_nested`: the derivation trees of a sentence lie in one another;
* `Strategy.exists_ambiguous`: a grammar with tables and a sentence with two trees.
-/

namespace Coscript

open Configuration Relation

/-! ### Parts of trees -/

namespace Tree

/-- A tree is a child of another one. -/
def IsChild (u t : Tree) : Prop := u ∈ t.children

/-- A tree is a proper part of another one. -/
def Inside (u t : Tree) : Prop := TransGen IsChild u t

end Tree

variable {g : Grammar} {production : Nat} {t : ParsingTable} {I : Nat → Item Nat → Prop}

namespace Grammar

lemma DerivesAll.exists_of_mem {T : Tree} {ts : List Tree} (hT : T ∈ ts) :
    ∀ {xs : List Symbol}, g.DerivesAll xs ts → ∃ x ∈ xs, g.Derives x T := by
  induction ts with
  | nil => cases hT
  | cons t ts ih =>
    rintro _ (_ | @⟨x, _, xs, _, ht, hts⟩)
    rcases List.mem_cons.mp hT with rfl | hT
    · exact ⟨x, List.mem_cons_self, ht⟩
    · obtain ⟨y, hy, hderives⟩ := ih hT hts
      exact ⟨y, List.mem_cons_of_mem x hy, hderives⟩

/-- An inner node is derived from its name only. -/
lemma Derives.eq_nonTerminal {x : Symbol} {a : String} {ts : List Tree}
    (h : g.Derives x (.node a ts)) : x = .nonTerminal a := by
  generalize hT : Tree.node a ts = T at h
  cases h with
  | leaf => cases hT
  | node => cases hT; rfl

/-- The symbol of a derivation tree that is a proper part of another one stands in a body. -/
lemma mem_body_of_inside {T U : Tree} (h : T.Inside U) {x : Symbol} (hU : g.Derives x U) :
    ∃ y, g.Derives y T ∧ ∃ k p, g.production? k = some p ∧ y ∈ p.body := by
  have hchild : ∀ {T U : Tree} {x : Symbol}, T.IsChild U → g.Derives x U →
      ∃ y, g.Derives y T ∧ ∃ k p, g.production? k = some p ∧ y ∈ p.body := by
    intro T U x hT hU
    cases hU with
    | leaf => cases hT
    | @node k p ts hp hts =>
      obtain ⟨y, hy, hderives⟩ := hts.exists_of_mem hT
      exact ⟨y, hderives, k, p, hp, hy⟩
  induction h using TransGen.head_induction_on with
  | single hT => exact hchild hT hU
  | head hT _ ih =>
    obtain ⟨y, hy, -⟩ := ih
    exact hchild hT hy

end Grammar

/-! ### Moves -/

namespace Configuration

/-- **What has been pushed stays a part of what is pushed.** -/
lemma inside_of_moves {n : Nat} {c c' : Configuration} (h : moves t n c = some c') {T : Tree}
    (hT : ∃ f ∈ c.stack, ReflTransGen Tree.IsChild T f.2) :
    ∃ f ∈ c'.stack, ReflTransGen Tree.IsChild T f.2 := by
  induction n generalizing c with
  | zero =>
    cases h
    exact hT
  | succ n ih =>
    obtain ⟨c₁, hmove, h⟩ := Option.bind_eq_some_iff.mp h
    refine ih h ?_
    obtain ⟨f, hf, hin⟩ := hT
    rcases move?_cases hmove with
      ⟨next, x, rest, -, -, rfl⟩ | ⟨slot, p, hd, next, -, -, hhandle, -, rfl⟩
    · exact ⟨f, List.mem_cons_of_mem _ hf, hin⟩
    · obtain ⟨frames, hstack, -, hchildren, -, -⟩ := handle?_spec hhandle
      rw [hstack, List.mem_append] at hf
      rcases hf with hf | hf
      · refine ⟨_, List.mem_cons_self, hin.tail ?_⟩
        show f.2 ∈ hd.children
        rw [hchildren, List.mem_reverse]
        exact List.mem_map_of_mem hf
      · exact ⟨f, List.mem_cons_of_mem _ hf, hin⟩

end Configuration

/-! ### Derivation trees of one sentence -/

namespace ParsingTable.Covers

/-- The smaller one of two derivation trees of a sentence is the other one or a part of it. -/
lemma nested (h : t.Covers g production I) (hg : g.Unmixed)
    (hp : g.startProduction = .ok production) {T U : Tree}
    (hT : g.Derives (.nonTerminal g.start) T) (hU : g.Derives (.nonTerminal g.start) U)
    (hword : T.word = U.word) (hle : T.size ≤ U.size) : T = U ∨ T.Inside U := by
  obtain ⟨-, -, -, honly⟩ := Grammar.startProduction_spec hp
  obtain ⟨i, p, ts, hi, hname, rfl, hts⟩ := hT.isNode
  obtain ⟨j, q, us, hj, hname', rfl, hus⟩ := hU.isNode
  obtain rfl := honly i p hi hname
  obtain rfl := honly j q hj hname'
  cases hi.symm.trans hj
  obtain ⟨n, last, frames, hf, hn, hmoves⟩ := h.moves_start hg hi hts
  obtain ⟨n', last', frames', hf', -, hmoves'⟩ := h.moves_start hg hi hus
  rw [Tree.word, Tree.word] at hword
  rw [Tree.size, Tree.size] at hle
  rw [← hword] at hmoves'
  obtain ⟨d, hd, hlater⟩ := exists_moves_le (show Tree.sizeAll ts ≤ Tree.sizeAll us by omega) hmoves'
  cases hmoves.symm.trans hd
  rcases Nat.eq_or_lt_of_le (show Tree.sizeAll ts ≤ Tree.sizeAll us by omega) with heq | hlt
  · -- As many moves push the same trees.
    rw [heq, Nat.sub_self] at hlater
    cases hlater
    rw [← hf.trees, ← hf'.trees]
    exact .inl rfl
  · -- The next move pushes the smaller tree.
    right
    obtain ⟨m, hm⟩ := Nat.exists_eq_add_of_lt hlt
    rw [show Tree.sizeAll us - Tree.sizeAll ts = m + 1 by omega] at hlater
    obtain ⟨c, hmove, hlater⟩ := Option.bind_eq_some_iff.mp hlater
    have hnext : Item.next? ⟨j, ts.length, Grammar.endOfInput⟩ g = none := by
      rw [Item.next?, hi, Option.bind_some, hts.length_eq]
      exact List.getElem?_length _
    obtain ⟨q, slot, hq, hrule, hact, -⟩ := h.reduce hn hnext g.terminal?_special.1
    cases hi.symm.trans hq
    have haction : Configuration.action t ⟨n, frames, [], last⟩ = .reduce slot := hact
    have hhandle := handle?_of_frames (c := ⟨n, frames, [], last⟩)
      (List.append_nil frames).symm hf hts
    have hpushed : ∃ f ∈ c.stack, ReflTransGen Tree.IsChild (.node g.start ts) f.2 := by
      unfold move? at hmove
      simp only [haction, hrule, hhandle] at hmove
      obtain ⟨next, -, rfl⟩ := Option.map_eq_some_iff.mp hmove
      exact ⟨_, List.mem_cons_self, hname ▸ .refl⟩
    obtain ⟨f, hmem, hin⟩ := inside_of_moves hlater hpushed
    refine TransGen.tail' hin ?_
    show f.2 ∈ us
    rw [← hf'.trees, List.mem_reverse]
    exact List.mem_map_of_mem hmem

end ParsingTable.Covers

namespace Strategy

/-- **The derivation trees of a sentence lie in one another**, if there is a table: of two of them
that differ one is a proper part of the other. There is only one if the start symbol stands in no
body. -/
theorem derivations_nested {strategy : Strategy} (hg : g.Unmixed) (ht : strategy.build g = .ok t)
    {T U : Tree} (hT : g.Derives (.nonTerminal g.start) T)
    (hU : g.Derives (.nonTerminal g.start) U) (hword : T.word = U.word) :
    (T = U ∨ T.Inside U ∨ U.Inside T) ∧
      ((∀ k p, g.production? k = some p → .nonTerminal g.start ∉ p.body) → T = U) := by
  obtain ⟨production, hp, hbuilt⟩ := built ht
  obtain ⟨I, hcovers⟩ := hbuilt.covers hp
  have hnested : T = U ∨ T.Inside U ∨ U.Inside T := by
    rcases Nat.le_total T.size U.size with hle | hle
    · exact (hcovers.nested hg hp hT hU hword hle).imp_right .inl
    · exact (hcovers.nested hg hp hU hT hword.symm hle).imp Eq.symm .inr
  refine ⟨hnested, fun hbody => ?_⟩
  -- A part that is a derivation tree of the start symbol would put it into a body.
  have houtside : ∀ {T U : Tree}, g.Derives (.nonTerminal g.start) T →
      g.Derives (.nonTerminal g.start) U → ¬ T.Inside U := by
    intro T U hT hU hin
    obtain ⟨y, hy, k, p, hk, hmem⟩ := Grammar.mem_body_of_inside hin hU
    obtain ⟨i, q, ts, -, -, rfl, -⟩ := hT.isNode
    rw [hy.eq_nonTerminal] at hmem
    exact hbody k p hk hmem
  rcases hnested with heq | hin | hin
  · exact heq
  · exact absurd hin (houtside hT hU)
  · exact absurd hin (houtside hU hT)

/-! ### A start symbol that derives itself -/

/-- The symbols `S` and `A` derive each other. -/
def cyclicDocument : String := "%start S\nS -> A\nA -> S\n  | `c`\n"

/-- The token `c` by way of `A`. -/
def shortTree : Tree := .node "S" [.node "A" [.leaf (plainToken .identifier "c")]]

/-- The token `c` by way of `A` and once more of `S` and `A`. -/
def longTree : Tree := .node "S" [.node "A" [shortTree]]

/-- The rules of the document. -/
def cyclicRules : Document.Fact cyclicDocument :=
  ⟨fun g _ => g.Unmixed ∧ g.start = "S" ∧ g.production? 0 = some ⟨"S", [.nonTerminal "A"]⟩ ∧
    g.production? 1 = some ⟨"A", [.nonTerminal "S"]⟩ ∧
    g.production? 2 = some ⟨"A", [.terminal (.literal .identifier "c")]⟩,
    by decide +kernel⟩

/-- The document has all three tables, and both trees are derivation trees. -/
lemma derives_cyclic : ∃ g t, Document.parse cyclicDocument = .ok g ∧ g.Unmixed ∧ BuildAll g t ∧
    g.Derives (.nonTerminal g.start) shortTree ∧ g.Derives (.nonTerminal g.start) longTree := by
  obtain ⟨g, t, hparse, hbuild, hfacts⟩ := cyclicRules.exists_tables
  obtain ⟨hg, hstart, hS, hA, hc⟩ := of_decide_eq_true hfacts
  have hshort : g.Derives (.nonTerminal "S") shortTree :=
    .node hS (.cons (.node hc (.cons (.leaf (by decide)) .nil)) .nil)
  have hlong : g.Derives (.nonTerminal "S") longTree :=
    .node hS (.cons (.node hA (.cons hshort .nil)) .nil)
  rw [← hstart] at hshort hlong
  exact ⟨g, t, hparse, hg, hbuild, hshort, hlong⟩

/-- One of the two trees of the token `c` is a part of the other. -/
theorem derivations_nested_cyclic : ∃ g t, Document.parse cyclicDocument = .ok g ∧ g.Unmixed ∧
    simple.build g = .ok t ∧ g.Derives (.nonTerminal g.start) shortTree ∧
    g.Derives (.nonTerminal g.start) longTree ∧ shortTree.word = longTree.word ∧
    (shortTree = longTree ∨ shortTree.Inside longTree ∨ longTree.Inside shortTree) ∧
    ((∀ k p, g.production? k = some p → .nonTerminal g.start ∉ p.body) →
      shortTree = longTree) := by
  obtain ⟨g, t, hparse, hg, hbuild, hshort, hlong⟩ := derives_cyclic
  exact ⟨g, t simple, hparse, hg, hbuild simple, hshort, hlong, rfl,
    derivations_nested hg (hbuild simple) hshort hlong rfl⟩

/-- **A start symbol that derives itself is no conflict**: there are grammars with all three tables
and a sentence with two derivation trees. -/
theorem exists_ambiguous : ∃ g t, Document.parse cyclicDocument = .ok g ∧ g.Ordinary ∧ g.Unmixed ∧
    BuildAll g t ∧ ∃ T U, g.Derives (.nonTerminal g.start) T ∧ g.Derives (.nonTerminal g.start) U ∧
      T.word = U.word ∧ T ≠ U := by
  obtain ⟨g, t, hparse, hg, hbuild, hshort, hlong⟩ := derives_cyclic
  refine ⟨g, t, hparse, Document.parse_ordinary hparse, hg, hbuild, shortTree, longTree, hshort,
    hlong, rfl, ?_⟩
  intro heq
  cases heq

end Strategy

end Coscript
