import Coscript.Proofs.Phrases
import Coscript.Script.Elaboration

/-!
# The nodes of derivation trees of scripts

What a node of a derivation tree has for children depends on its name alone: they are as one of the
productions of the name says. Lists are written with nested nodes, and the items of such a list are
derivation trees too.

* `Script.exists_body`: the children of a node are those of a production;
* `Script.derives_of_mem_items`: what the items of a list are derived from.
-/

namespace Coscript.Script

open Elaboration

variable {g : Grammar}

/-! ### Children -/

/-- The children of a node are derivation trees of some symbols, and satisfy a condition. -/
def Children (g : Grammar) : List Symbol → (List Tree → Prop) → Prop
  | [], P => P []
  | .terminal y :: ss, P =>
    ∃ x : Token, y.accepts x.type x.text = true ∧ Children g ss fun ts => P (.leaf x :: ts)
  | .nonTerminal a :: ss, P => ∃ t, g.Derives (part a) t ∧ Children g ss fun ts => P (t :: ts)

lemma children_of_derivesAll {ss : List Symbol} {ts : List Tree} (h : g.DerivesAll ss ts)
    {P : List Tree → Prop} (hP : P ts) : Children g ss P := by
  induction ss generalizing ts P with
  | nil =>
    cases h
    exact hP
  | cons s ss ih =>
    cases h with
    | cons h hs =>
      cases s with
      | nonTerminal a => exact ⟨_, h, ih hs hP⟩
      | terminal y =>
        cases h with
        | leaf hx => exact ⟨_, hx, ih hs hP⟩

/-- The bodies of the productions of a name. -/
def bodies (name : String) : List (List Symbol) :=
  (productions.filter (·.name = name)).map (·.body)

lemma exists_body (hg : grammar = .ok g) {name : String} {t : Tree}
    (h : g.Derives (part name) t) :
    ∃ body ∈ bodies name, Children g body fun ts => t = .node name ts := by
  obtain ⟨i, p, ts, hi, rfl, rfl, hts⟩ := h.isNode
  have hp : p ∈ productions.filter (·.name = p.name) :=
    List.mem_filter.mpr ⟨mem_productions hg hi, decide_eq_true rfl⟩
  exact ⟨p.body, List.mem_map_of_mem hp, children_of_derivesAll hts rfl⟩

lemma exists_node {name : String} {t : Tree} (h : g.Derives (part name) t) :
    ∃ ts, t = .node name ts := by
  obtain ⟨i, p, ts, -, -, rfl, -⟩ := h.isNode
  exact ⟨ts, rfl⟩

/-! ### The nodes by their names -/

variable {t : Tree}

lemma derives_expression (hg : grammar = .ok g) (h : g.Derives (part "Expression") t) :
    (∃ x : Token, x.type = .identifier ∧ ∃ y : Token, y.Is .operator "=" ∧
        ∃ e, g.Derives (part "Expression") e ∧ t = .node "Expression" [.leaf x, .leaf y, e]) ∨
      ∃ b, g.Derives (part "Binary") b ∧ t = .node "Expression" [b] := by
  simpa [bodies, productions, Children, any, operator, part] using exists_body hg h

lemma derives_binary (hg : grammar = .ok g) (h : g.Derives (part "Binary") t) :
    ∃ u, g.Derives (part "Unary") u ∧ ∃ rest, g.Derives (part "BinaryTail") rest ∧
      t = .node "Binary" [u, rest] := by
  simpa [bodies, productions, Children, part] using exists_body hg h

lemma derives_binaryTail (hg : grammar = .ok g) (h : g.Derives (part "BinaryTail") t) :
    (∃ x : Token, x.type = .operator ∧ ∃ u, g.Derives (part "Unary") u ∧
        ∃ rest, g.Derives (part "BinaryTail") rest ∧
          t = .node "BinaryTail" [.leaf x, u, rest]) ∨
      t = .node "BinaryTail" [] := by
  simpa [bodies, productions, Children, any, part] using exists_body hg h

lemma derives_unary (hg : grammar = .ok g) (h : g.Derives (part "Unary") t) :
    (∃ x : Token, x.type = .operator ∧ ∃ u, g.Derives (part "Unary") u ∧
        t = .node "Unary" [.leaf x, u]) ∨
      ∃ p, g.Derives (part "Primary") p ∧ t = .node "Unary" [p] := by
  have h : (∃ x : Token, x.Is .operator "-" ∧ ∃ u, g.Derives (part "Unary") u ∧
        t = .node "Unary" [.leaf x, u]) ∨
      (∃ x : Token, x.Is .operator "!" ∧ ∃ u, g.Derives (part "Unary") u ∧
        t = .node "Unary" [.leaf x, u]) ∨
      ∃ p, g.Derives (part "Primary") p ∧ t = .node "Unary" [p] := by
    simpa [bodies, productions, Children, operator, part] using exists_body hg h
  rcases h with ⟨x, hx, h⟩ | ⟨x, hx, h⟩ | h
  · exact .inl ⟨x, hx.1, h⟩
  · exact .inl ⟨x, hx.1, h⟩
  · exact .inr h

/-- The types of the tokens that are constants or variables. -/
def constantTypes : List TokenType := [.identifier, .integer, .float, .string]

lemma derives_primary (hg : grammar = .ok g) (h : g.Derives (part "Primary") t) :
    (∃ x : Token, x.type ∈ constantTypes ∧ t = .node "Primary" [.leaf x]) ∨
      (∃ x : Token, x.type = .identifier ∧ ∃ l : Token, l.Is .punctuation "(" ∧
        ∃ arguments, g.Derives (part "Arguments") arguments ∧
          ∃ r : Token, r.Is .punctuation ")" ∧
            t = .node "Primary" [.leaf x, .leaf l, arguments, .leaf r]) ∨
      ∃ l : Token, l.Is .punctuation "(" ∧ ∃ e, g.Derives (part "Expression") e ∧
        ∃ r : Token, r.Is .punctuation ")" ∧ t = .node "Primary" [.leaf l, e, .leaf r] := by
  have h : (∃ x : Token, x.type = .identifier ∧ t = .node "Primary" [.leaf x]) ∨
      (∃ x : Token, x.type = .identifier ∧ ∃ l : Token, l.Is .punctuation "(" ∧
        ∃ arguments, g.Derives (part "Arguments") arguments ∧
          ∃ r : Token, r.Is .punctuation ")" ∧
            t = .node "Primary" [.leaf x, .leaf l, arguments, .leaf r]) ∨
      (∃ x : Token, x.type = .integer ∧ t = .node "Primary" [.leaf x]) ∨
      (∃ x : Token, x.type = .float ∧ t = .node "Primary" [.leaf x]) ∨
      (∃ x : Token, x.type = .string ∧ t = .node "Primary" [.leaf x]) ∨
      ∃ l : Token, l.Is .punctuation "(" ∧ ∃ e, g.Derives (part "Expression") e ∧
        ∃ r : Token, r.Is .punctuation ")" ∧ t = .node "Primary" [.leaf l, e, .leaf r] := by
    simpa [bodies, productions, Children, any, mark, part] using exists_body hg h
  rcases h with ⟨x, hx, ht⟩ | h | ⟨x, hx, ht⟩ | ⟨x, hx, ht⟩ | ⟨x, hx, ht⟩ | h
  · exact .inl ⟨x, by simp [hx, constantTypes], ht⟩
  · exact .inr (.inl h)
  · exact .inl ⟨x, by simp [hx, constantTypes], ht⟩
  · exact .inl ⟨x, by simp [hx, constantTypes], ht⟩
  · exact .inl ⟨x, by simp [hx, constantTypes], ht⟩
  · exact .inr (.inr h)

lemma derives_arguments (hg : grammar = .ok g) (h : g.Derives (part "Arguments") t) :
    (∃ list, g.Derives (part "ArgumentList") list ∧ t = .node "Arguments" [list]) ∨
      t = .node "Arguments" [] := by
  simpa [bodies, productions, Children, part] using exists_body hg h

lemma derives_argumentList (hg : grammar = .ok g) (h : g.Derives (part "ArgumentList") t) :
    ∃ e, g.Derives (part "Expression") e ∧ ∃ rest, g.Derives (part "ArgumentTail") rest ∧
      t = .node "ArgumentList" [e, rest] := by
  simpa [bodies, productions, Children, part] using exists_body hg h

lemma derives_argumentTail (hg : grammar = .ok g) (h : g.Derives (part "ArgumentTail") t) :
    (∃ x : Token, x.Is .punctuation "," ∧ ∃ e, g.Derives (part "Expression") e ∧
        ∃ rest, g.Derives (part "ArgumentTail") rest ∧
          t = .node "ArgumentTail" [.leaf x, e, rest]) ∨
      t = .node "ArgumentTail" [] := by
  simpa [bodies, productions, Children, mark, part] using exists_body hg h

lemma derives_statement (hg : grammar = .ok g) (h : g.Derives (part "Statement") t) :
    ∃ name ∈ ["VarStatement", "IfStatement", "WhileStatement", "ReturnStatement",
        "ExpressionStatement", "Block"],
      ∃ inner, g.Derives (part name) inner ∧ t = .node "Statement" [inner] := by
  simpa [bodies, productions, Children, part] using exists_body hg h

lemma derives_varStatement (hg : grammar = .ok g) (h : g.Derives (part "VarStatement") t) :
    (∃ k : Token, k.Is .keyword "var" ∧ ∃ x : Token, x.type = .identifier ∧
        ∃ s : Token, s.Is .punctuation ";" ∧
          t = .node "VarStatement" [.leaf k, .leaf x, .leaf s]) ∨
      ∃ k : Token, k.Is .keyword "var" ∧ ∃ x : Token, x.type = .identifier ∧
        ∃ y : Token, y.Is .operator "=" ∧ ∃ e, g.Derives (part "Expression") e ∧
          ∃ s : Token, s.Is .punctuation ";" ∧
            t = .node "VarStatement" [.leaf k, .leaf x, .leaf y, e, .leaf s] := by
  simpa [bodies, productions, Children, any, keyword, mark, operator, part] using exists_body hg h

lemma derives_ifStatement (hg : grammar = .ok g) (h : g.Derives (part "IfStatement") t) :
    ∃ k : Token, k.Is .keyword "if" ∧ ∃ l : Token, l.Is .punctuation "(" ∧
      ∃ e, g.Derives (part "Expression") e ∧ ∃ r : Token, r.Is .punctuation ")" ∧
        ∃ b, g.Derives (part "Block") b ∧ ∃ alternative, g.Derives (part "ElseClause") alternative ∧
          t = .node "IfStatement" [.leaf k, .leaf l, e, .leaf r, b, alternative] := by
  simpa [bodies, productions, Children, keyword, mark, part] using exists_body hg h

lemma derives_elseClause (hg : grammar = .ok g) (h : g.Derives (part "ElseClause") t) :
    (∃ k : Token, k.Is .keyword "else" ∧ ∃ b, g.Derives (part "Block") b ∧
        t = .node "ElseClause" [.leaf k, b]) ∨
      (∃ k : Token, k.Is .keyword "else" ∧ ∃ s, g.Derives (part "IfStatement") s ∧
        t = .node "ElseClause" [.leaf k, s]) ∨
      t = .node "ElseClause" [] := by
  simpa [bodies, productions, Children, keyword, part] using exists_body hg h

lemma derives_whileStatement (hg : grammar = .ok g) (h : g.Derives (part "WhileStatement") t) :
    ∃ k : Token, k.Is .keyword "while" ∧ ∃ l : Token, l.Is .punctuation "(" ∧
      ∃ e, g.Derives (part "Expression") e ∧ ∃ r : Token, r.Is .punctuation ")" ∧
        ∃ b, g.Derives (part "Block") b ∧
          t = .node "WhileStatement" [.leaf k, .leaf l, e, .leaf r, b] := by
  simpa [bodies, productions, Children, keyword, mark, part] using exists_body hg h

lemma derives_returnStatement (hg : grammar = .ok g) (h : g.Derives (part "ReturnStatement") t) :
    (∃ k : Token, k.Is .keyword "return" ∧ ∃ s : Token, s.Is .punctuation ";" ∧
        t = .node "ReturnStatement" [.leaf k, .leaf s]) ∨
      ∃ k : Token, k.Is .keyword "return" ∧ ∃ e, g.Derives (part "Expression") e ∧
        ∃ s : Token, s.Is .punctuation ";" ∧
          t = .node "ReturnStatement" [.leaf k, e, .leaf s] := by
  simpa [bodies, productions, Children, keyword, mark, part] using exists_body hg h

lemma derives_expressionStatement (hg : grammar = .ok g)
    (h : g.Derives (part "ExpressionStatement") t) :
    ∃ e, g.Derives (part "Expression") e ∧ ∃ s : Token, s.Is .punctuation ";" ∧
      t = .node "ExpressionStatement" [e, .leaf s] := by
  simpa [bodies, productions, Children, mark, part] using exists_body hg h

lemma derives_block (hg : grammar = .ok g) (h : g.Derives (part "Block") t) :
    ∃ l : Token, l.Is .punctuation "\x7b" ∧ ∃ ss, g.Derives (part "Statements") ss ∧
      ∃ r : Token, r.Is .punctuation "\x7d" ∧ t = .node "Block" [.leaf l, ss, .leaf r] := by
  simpa [bodies, productions, Children, mark, part] using exists_body hg h

lemma derives_function (hg : grammar = .ok g) (h : g.Derives (part "Function") t) :
    ∃ k : Token, k.Is .keyword "function" ∧ ∃ x : Token, x.type = .identifier ∧
      ∃ l : Token, l.Is .punctuation "(" ∧ ∃ ps, g.Derives (part "Parameters") ps ∧
        ∃ r : Token, r.Is .punctuation ")" ∧ ∃ b, g.Derives (part "Block") b ∧
          t = .node "Function" [.leaf k, .leaf x, .leaf l, ps, .leaf r, b] := by
  simpa [bodies, productions, Children, any, keyword, mark, part] using exists_body hg h

lemma derives_declaration (hg : grammar = .ok g) (h : g.Derives (part "Declaration") t) :
    (∃ f, g.Derives (part "Function") f ∧ t = .node "Declaration" [f]) ∨
      ∃ s, g.Derives (part "Statement") s ∧ t = .node "Declaration" [s] := by
  simpa [bodies, productions, Children, part] using exists_body hg h

lemma derives_program (hg : grammar = .ok g) (h : g.Derives (part "Program") t) :
    ∃ ds, g.Derives (part "Declarations") ds ∧ t = .node "Program" [ds] := by
  simpa [bodies, productions, Children, part] using exists_body hg h

/-! ### Items -/

/-- A child that continues a list. -/
lemma itemsOfAll_tail {tails : List String} {name : String} (hname : name ∈ tails) {c : Tree}
    (hc : g.Derives (part name) c) (cs : List Tree) :
    itemsOfAll tails (c :: cs) = items tails c ++ itemsOfAll tails cs := by
  obtain ⟨ts, rfl⟩ := exists_node hc
  rw [itemsOfAll, isTail, if_pos (by simpa using hname)]

/-- A child that is an item. -/
lemma itemsOfAll_item {tails : List String} {name : String} (hname : name ∉ tails) {c : Tree}
    (hc : g.Derives (part name) c) (cs : List Tree) :
    itemsOfAll tails (c :: cs) = c :: itemsOfAll tails cs := by
  obtain ⟨ts, rfl⟩ := exists_node hc
  rw [itemsOfAll, isTail, if_neg (by simpa using hname), isSeparator, if_neg Bool.false_ne_true]
  rfl

section Items

variable {tails names : List String} {x : Symbol}

mutual

/-- The items of a list are derived from the symbol in its productions that does not continue
it. -/
lemma derives_item (hg : grammar = .ok g)
    (hbodies : ∀ p ∈ productions, p.name ∈ names → ∀ s ∈ p.body,
      s ∈ tails.map part ++ [mark ",", x])
    (htails : tails ⊆ names) : ∀ {t : Tree} {name : String}, name ∈ names →
    g.Derives (part name) t → ∀ u ∈ items tails t, g.Derives x u
  | .leaf _, _, _, _, _, hu => by simp [items] at hu
  | .node _ _, _, hname, .node hp h, u, hu =>
    derivesAll_item hg hbodies htails (hbodies _ (mem_productions hg hp) hname) h u
      (by rwa [items] at hu)

/-- So are the items among some children of a list. -/
lemma derivesAll_item (hg : grammar = .ok g)
    (hbodies : ∀ p ∈ productions, p.name ∈ names → ∀ s ∈ p.body,
      s ∈ tails.map part ++ [mark ",", x])
    (htails : tails ⊆ names) : ∀ {ss : List Symbol} {ts : List Tree},
    (∀ s ∈ ss, s ∈ tails.map part ++ [mark ",", x]) → g.DerivesAll ss ts →
    ∀ u ∈ itemsOfAll tails ts, g.Derives x u
  | [], [], _, .nil, _, hu => by simp [itemsOfAll] at hu
  | s :: ss, c :: cs, hss, .cons h hs, u, hu => by
    obtain ⟨hs', hss⟩ := List.forall_mem_cons.mp hss
    rw [itemsOfAll, List.mem_append] at hu
    refine hu.elim (fun hu => ?_) (derivesAll_item hg hbodies htails hss hs u)
    simp only [List.mem_append, List.mem_map, List.mem_cons, List.not_mem_nil, or_false] at hs'
    cases h with
    | @leaf y z hz =>
      rw [isTail, if_neg Bool.false_ne_true] at hu
      split at hu
      · cases hu
      · next hseparator =>
        obtain rfl := List.mem_singleton.mp hu
        rcases hs' with ⟨a, -, ha⟩ | hmark | rfl
        · cases ha
        · cases hmark
          obtain ⟨htype, htext⟩ := Terminal.accepts_literal.mp hz
          simp [isSeparator, htype, htext] at hseparator
        · exact .leaf hz
    | @node i p ts hp hts =>
      split at hu
      · next htail =>
        exact derives_item hg hbodies htails (htails (by simpa [isTail] using htail))
          (.node hp hts) u hu
      · next htail =>
        rw [isSeparator, if_neg Bool.false_ne_true] at hu
        obtain rfl := List.mem_singleton.mp hu
        rcases hs' with ⟨a, ha, heq⟩ | hmark | rfl
        · cases heq
          simp [isTail, ha] at htail
        · cases hmark
        · exact .node hp hts

end

/-- **The items of a list are derived** from the symbol in its productions that does not continue
it. -/
theorem derives_of_mem_items (hg : grammar = .ok g) (tails : List String) (x : Symbol)
    {name : String} (hbodies : ∀ p ∈ productions, p.name ∈ name :: tails → ∀ s ∈ p.body,
      s ∈ tails.map part ++ [mark ",", x])
    {t u : Tree} (h : g.Derives (part name) t) (hu : u ∈ items tails t) : g.Derives x u :=
  derives_item hg hbodies (List.subset_cons_self _ _) List.mem_cons_self h u hu

end Items

end Coscript.Script
