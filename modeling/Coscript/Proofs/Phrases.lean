import Coscript.Proofs.Assignments

/-!
# The phrases of scripts

The language of scripts in the notation that describes it, where an operator is any operator:

* a program is `(function | statement)*`;
* a function is `'function' Identifier '(' params? ')' block`;
* a statement is `'var' Identifier ('=' expr)? ';'`, `expr ';'`,
  `'if' '(' expr ')' block ('else' (block | if))?`, `'while' '(' expr ')' block`,
  `'return' expr? ';'` or a block;
* an expression is `Identifier '=' expr` or `unary (Operator unary)*`;
* a unary is `'-' unary`, `'!' unary` or a primary;
* a primary is `Identifier`, `Identifier '(' args? ')'`, `Integer`, `Float`, `String` or
  `'(' expr ')'`.

Parameters and arguments are separated by commas, and a block is statements between braces. The
productions of the language derive these phrases and no others.

* `Script.IsProgram`: the tokens of programs;
* `Script.program_of_derives`: what the productions derive is a program;
* `Script.Phrase.hasTree`: every phrase has a preferred derivation tree.
-/

namespace Coscript

/-- A token with a type and a text. -/
def Token.Is (x : Token) (type : TokenType) (text : String) : Prop := x.type = type ∧ x.text = text

@[simp] lemma Terminal.accepts_literal {type : TokenType} {text : String} {x : Token} :
    (Terminal.literal type text).accepts x.type x.text = true ↔ x.Is type text := by
  rw [Terminal.accepts, Bool.and_eq_true, decide_eq_true_eq, decide_eq_true_eq, Token.Is,
    eq_comm (a := type), eq_comm (a := text)]

@[simp] lemma Terminal.accepts_any {type : TokenType} {x : Token} :
    (Terminal.any type).accepts x.type x.text = true ↔ x.type = type := by
  rw [Terminal.accepts, decide_eq_true_eq, eq_comm]

namespace Script

/-! ### The language -/

/-- Words one after another, each behind a token. -/
def chain (es : List (Token × List Token)) : List Token := es.flatMap fun e => e.1 :: e.2

/-- Any number of words of a language. -/
def Many (P : List Token → Prop) (w : List Token) : Prop :=
  ∃ ws : List (List Token), (∀ v ∈ ws, P v) ∧ w = ws.flatten

/-- Any number of words of a language, each behind a token of a kind. -/
def Behind (sep : Token → Prop) (P : List Token → Prop) (w : List Token) : Prop :=
  ∃ es : List (Token × List Token), (∀ e ∈ es, sep e.1) ∧ (∀ e ∈ es, P e.2) ∧ w = chain es

/-- The kinds of phrases. -/
inductive Kind
  | function
  | statement
  | block
  | conditional
  | expression
  | unary
  | primary
  deriving DecidableEq

/-- An identifier. -/
def Identifier (w : List Token) : Prop := ∃ i : Token, i.type = .identifier ∧ w = [i]

/-- Identifiers separated by commas. -/
def Parameters (w : List Token) : Prop :=
  ∃ (i : Token) (v : List Token), i.type = .identifier ∧
    Behind (·.Is .punctuation ",") Identifier v ∧ w = i :: v

/-- The phrases of scripts. -/
inductive Phrase : Kind → List Token → Prop
  | function {f i l r : Token} {ps b : List Token} (hf : f.Is .keyword "function")
    (hi : i.type = .identifier) (hl : l.Is .punctuation "(") (hps : ps = [] ∨ Parameters ps)
    (hr : r.Is .punctuation ")") (hb : Phrase .block b) :
    Phrase .function (f :: i :: l :: (ps ++ r :: b))
  | declaration {v i s : Token} (hv : v.Is .keyword "var") (hi : i.type = .identifier)
    (hs : s.Is .punctuation ";") : Phrase .statement [v, i, s]
  | definition {v i a s : Token} {e : List Token} (hv : v.Is .keyword "var")
    (hi : i.type = .identifier) (ha : a.Is .operator "=") (he : Phrase .expression e)
    (hs : s.Is .punctuation ";") : Phrase .statement (v :: i :: a :: (e ++ [s]))
  | computation {s : Token} {e : List Token} (he : Phrase .expression e)
    (hs : s.Is .punctuation ";") : Phrase .statement (e ++ [s])
  | conditional {w : List Token} (h : Phrase .conditional w) : Phrase .statement w
  | loop {k l r : Token} {e b : List Token} (hk : k.Is .keyword "while")
    (hl : l.Is .punctuation "(") (he : Phrase .expression e) (hr : r.Is .punctuation ")")
    (hb : Phrase .block b) : Phrase .statement (k :: l :: (e ++ r :: b))
  | returnNothing {k s : Token} (hk : k.Is .keyword "return") (hs : s.Is .punctuation ";") :
    Phrase .statement [k, s]
  | returnValue {k s : Token} {e : List Token} (hk : k.Is .keyword "return")
    (he : Phrase .expression e) (hs : s.Is .punctuation ";") : Phrase .statement (k :: (e ++ [s]))
  | nested {b : List Token} (h : Phrase .block b) : Phrase .statement b
  | block {l r : Token} {ws : List (List Token)} (hl : l.Is .punctuation "\x7b")
    (hws : ∀ w ∈ ws, Phrase .statement w) (hr : r.Is .punctuation "\x7d") :
    Phrase .block (l :: (ws.flatten ++ [r]))
  | ifThen {k l r : Token} {e b : List Token} (hk : k.Is .keyword "if")
    (hl : l.Is .punctuation "(") (he : Phrase .expression e) (hr : r.Is .punctuation ")")
    (hb : Phrase .block b) : Phrase .conditional (k :: l :: (e ++ r :: b))
  | ifElse {k l r n : Token} {e b c : List Token} (hk : k.Is .keyword "if")
    (hl : l.Is .punctuation "(") (he : Phrase .expression e) (hr : r.Is .punctuation ")")
    (hb : Phrase .block b) (hn : n.Is .keyword "else") (hc : Phrase .block c) :
    Phrase .conditional (k :: l :: (e ++ r :: (b ++ n :: c)))
  | ifElseIf {k l r n : Token} {e b c : List Token} (hk : k.Is .keyword "if")
    (hl : l.Is .punctuation "(") (he : Phrase .expression e) (hr : r.Is .punctuation ")")
    (hb : Phrase .block b) (hn : n.Is .keyword "else") (hc : Phrase .conditional c) :
    Phrase .conditional (k :: l :: (e ++ r :: (b ++ n :: c)))
  | assignment {i a : Token} {e : List Token} (hi : i.type = .identifier) (ha : a.Is .operator "=")
    (he : Phrase .expression e) : Phrase .expression (i :: a :: e)
  | binary {u : List Token} {es : List (Token × List Token)} (hu : Phrase .unary u)
    (hops : ∀ e ∈ es, e.1.type = .operator) (hes : ∀ e ∈ es, Phrase .unary e.2) :
    Phrase .expression (u ++ chain es)
  | negative {m : Token} {u : List Token} (hm : m.Is .operator "-") (hu : Phrase .unary u) :
    Phrase .unary (m :: u)
  | negation {m : Token} {u : List Token} (hm : m.Is .operator "!") (hu : Phrase .unary u) :
    Phrase .unary (m :: u)
  | primary {w : List Token} (h : Phrase .primary w) : Phrase .unary w
  | name {i : Token} (hi : i.type = .identifier) : Phrase .primary [i]
  | callNothing {i l r : Token} (hi : i.type = .identifier) (hl : l.Is .punctuation "(")
    (hr : r.Is .punctuation ")") : Phrase .primary [i, l, r]
  | call {i l r : Token} {e : List Token} {es : List (Token × List Token)}
    (hi : i.type = .identifier) (hl : l.Is .punctuation "(") (he : Phrase .expression e)
    (hcommas : ∀ e ∈ es, e.1.Is .punctuation ",") (hes : ∀ e ∈ es, Phrase .expression e.2)
    (hr : r.Is .punctuation ")") : Phrase .primary (i :: l :: (e ++ (chain es ++ [r])))
  | integer {x : Token} (hx : x.type = .integer) : Phrase .primary [x]
  | float {x : Token} (hx : x.type = .float) : Phrase .primary [x]
  | string {x : Token} (hx : x.type = .string) : Phrase .primary [x]
  | group {l r : Token} {e : List Token} (hl : l.Is .punctuation "(") (he : Phrase .expression e)
    (hr : r.Is .punctuation ")") : Phrase .primary (l :: (e ++ [r]))

/-- The tokens of programs. -/
def IsProgram (w : List Token) : Prop := Many (fun v => Phrase .function v ∨ Phrase .statement v) w

/-! ### What the productions derive -/

lemma Many.nil {P : List Token → Prop} : Many P [] := ⟨[], by simp, rfl⟩

lemma Many.cons {P : List Token → Prop} {v w : List Token} (hv : P v) (hw : Many P w) :
    Many P (v ++ w) := by
  obtain ⟨ws, hws, rfl⟩ := hw
  exact ⟨v :: ws, List.forall_mem_cons.mpr ⟨hv, hws⟩, rfl⟩

variable {sep : Token → Prop}

lemma Behind.nil {P : List Token → Prop} : Behind sep P [] := ⟨[], by simp, by simp, rfl⟩

lemma Behind.cons {P : List Token → Prop} {x : Token} {v w : List Token} (hx : sep x) (hv : P v)
    (hw : Behind sep P w) : Behind sep P (x :: (v ++ w)) := by
  obtain ⟨es, hsep, hes, rfl⟩ := hw
  exact ⟨(x, v) :: es, List.forall_mem_cons.mpr ⟨hx, hsep⟩, List.forall_mem_cons.mpr ⟨hv, hes⟩, rfl⟩

/-- What the tokens of a derivation tree of a name are. -/
def Meaning : String → List Token → Prop
  | "Program" => IsProgram
  | "Declarations" => IsProgram
  | "Declaration" => fun w => Phrase .function w ∨ Phrase .statement w
  | "Function" => Phrase .function
  | "Parameters" => fun w => w = [] ∨ Parameters w
  | "ParameterList" => Parameters
  | "ParameterTail" => Behind (·.Is .punctuation ",") Identifier
  | "Block" => Phrase .block
  | "Statements" => Many (Phrase .statement)
  | "Statement" => Phrase .statement
  | "VarStatement" => Phrase .statement
  | "IfStatement" => Phrase .conditional
  | "ElseClause" => fun w => w = [] ∨ ∃ n c, n.Is .keyword "else" ∧
      (Phrase .block c ∨ Phrase .conditional c) ∧ w = n :: c
  | "WhileStatement" => Phrase .statement
  | "ReturnStatement" => Phrase .statement
  | "ExpressionStatement" => Phrase .statement
  | "Expression" => Phrase .expression
  | "Binary" => Phrase .expression
  | "BinaryTail" => Behind (·.type = .operator) (Phrase .unary)
  | "Unary" => Phrase .unary
  | "Primary" => Phrase .primary
  | "Arguments" => fun w => w = [] ∨ ∃ e v, Phrase .expression e ∧
      Behind (·.Is .punctuation ",") (Phrase .expression) v ∧ w = e ++ v
  | "ArgumentList" => fun w => ∃ e v, Phrase .expression e ∧
      Behind (·.Is .punctuation ",") (Phrase .expression) v ∧ w = e ++ v
  | "ArgumentTail" => Behind (·.Is .punctuation ",") (Phrase .expression)
  | _ => fun _ => False

/-- Words of symbols, one after another. -/
def Spells : List Symbol → List Token → Prop
  | [], w => w = []
  | .terminal y :: xs, w => ∃ z v, w = z :: v ∧ y.accepts z.type z.text = true ∧ Spells xs v
  | [.nonTerminal a], w => Meaning a w
  | .nonTerminal a :: x :: xs, w => ∃ u v, w = u ++ v ∧ Meaning a u ∧ Spells (x :: xs) v

/-- The productions of declarations, parameters and blocks. -/
lemma meaning_of_declaration : ∀ p ∈ productions.take 14, ∀ w, Spells p.body w →
    Meaning p.name w := by
  simp only [productions, List.take, List.forall_mem_cons, List.not_mem_nil, false_imp_iff,
    implies_true, and_true, Spells, keyword, mark, any, part, Terminal.accepts_literal,
    Terminal.accepts_any, Meaning]
  refine ⟨?program, ?more, ?done, ?function, ?statement, ?definition, ?some, ?none, ?list,
    ?another, ?last, ?block, ?statements, ?ended⟩
  case program => exact fun w hw => hw
  case more =>
    rintro w ⟨u, v, rfl, hu, hv⟩
    exact .cons hu hv
  case done =>
    rintro w rfl
    exact .nil
  case function => exact fun w hw => .inl hw
  case statement => exact fun w hw => .inr hw
  case definition =>
    rintro w ⟨f, _, rfl, hf, i, _, rfl, hi, l, _, rfl, hl, ps, _, rfl, hps, r, b, rfl, hr, hb⟩
    exact .function hf hi hl hps hr hb
  case some => exact fun w hw => .inr hw
  case none => exact fun w hw => .inl hw
  case list =>
    rintro w ⟨i, v, rfl, hi, hv⟩
    exact ⟨i, v, hi, hv, rfl⟩
  case another =>
    rintro w ⟨c, _, rfl, hc, i, v, rfl, hi, hv⟩
    exact Behind.cons hc ⟨i, hi, rfl⟩ hv
  case last =>
    rintro w rfl
    exact .nil
  case block =>
    rintro w ⟨l, _, rfl, hl, _, _, rfl, ⟨ws, hws, rfl⟩, r, _, rfl, hr, rfl⟩
    exact .block hl hws hr
  case statements =>
    rintro w ⟨u, v, rfl, hu, hv⟩
    exact .cons hu hv
  case ended =>
    rintro w rfl
    exact .nil

/-- The productions of statements. -/
lemma meaning_of_statement : ∀ p ∈ (productions.drop 14).take 16, ∀ w, Spells p.body w →
    Meaning p.name w := by
  simp only [productions, List.take, List.drop, List.forall_mem_cons, List.not_mem_nil,
    false_imp_iff, implies_true, and_true, Spells, keyword, mark, any, operator, part,
    Terminal.accepts_literal, Terminal.accepts_any, Meaning]
  refine ⟨?names, ?conditional, ?loops, ?returns, ?computations, ?nested, ?declaration,
    ?definition, ?choice, ?elseBlock, ?elseIf, ?noElse, ?loop, ?returnNothing, ?returnValue,
    ?computation⟩
  case names => exact fun w hw => hw
  case conditional => exact fun w hw => .conditional hw
  case loops => exact fun w hw => hw
  case returns => exact fun w hw => hw
  case computations => exact fun w hw => hw
  case nested => exact fun w hw => .nested hw
  case declaration =>
    rintro w ⟨v, _, rfl, hv, i, _, rfl, hi, s, _, rfl, hs, rfl⟩
    exact .declaration hv hi hs
  case definition =>
    rintro w ⟨v, _, rfl, hv, i, _, rfl, hi, a, _, rfl, ha, e, _, rfl, he, s, _, rfl, hs, rfl⟩
    exact .definition hv hi ha he hs
  case choice =>
    rintro w ⟨k, _, rfl, hk, l, _, rfl, hl, e, _, rfl, he, r, _, rfl, hr, b, _, rfl, hb, hc⟩
    rcases hc with rfl | ⟨n, c, hn, hc | hc, rfl⟩
    · rw [List.append_nil]
      exact .ifThen hk hl he hr hb
    · exact .ifElse hk hl he hr hb hn hc
    · exact .ifElseIf hk hl he hr hb hn hc
  case elseBlock =>
    rintro w ⟨n, c, rfl, hn, hc⟩
    exact .inr ⟨n, c, hn, .inl hc, rfl⟩
  case elseIf =>
    rintro w ⟨n, c, rfl, hn, hc⟩
    exact .inr ⟨n, c, hn, .inr hc, rfl⟩
  case noElse => exact fun w hw => .inl hw
  case loop =>
    rintro w ⟨k, _, rfl, hk, l, _, rfl, hl, e, _, rfl, he, r, b, rfl, hr, hb⟩
    exact .loop hk hl he hr hb
  case returnNothing =>
    rintro w ⟨k, _, rfl, hk, s, _, rfl, hs, rfl⟩
    exact .returnNothing hk hs
  case returnValue =>
    rintro w ⟨k, _, rfl, hk, e, _, rfl, he, s, _, rfl, hs, rfl⟩
    exact .returnValue hk he hs
  case computation =>
    rintro w ⟨e, _, rfl, he, s, _, rfl, hs, rfl⟩
    exact .computation he hs

/-- The productions of expressions. -/
lemma meaning_of_expression : ∀ p ∈ (productions.drop 14).drop 16, ∀ w, Spells p.body w →
    Meaning p.name w := by
  simp only [productions, List.drop, List.forall_mem_cons, List.not_mem_nil, false_imp_iff,
    implies_true, and_true, Spells, mark, any, operator, part, Terminal.accepts_literal,
    Terminal.accepts_any, Meaning]
  refine ⟨?assignment, ?binary, ?operands, ?another, ?last, ?negative, ?negation, ?primary, ?name,
    ?call, ?integer, ?float, ?string, ?group, ?some, ?none, ?list, ?more, ?done⟩
  case assignment =>
    rintro w ⟨i, _, rfl, hi, a, e, rfl, ha, he⟩
    exact .assignment hi ha he
  case binary => exact fun w hw => hw
  case operands =>
    rintro w ⟨u, _, rfl, hu, es, hops, hes, rfl⟩
    exact .binary hu hops hes
  case another =>
    rintro w ⟨o, _, rfl, ho, u, v, rfl, hu, hv⟩
    exact .cons ho hu hv
  case last =>
    rintro w rfl
    exact .nil
  case negative =>
    rintro w ⟨m, u, rfl, hm, hu⟩
    exact .negative hm hu
  case negation =>
    rintro w ⟨m, u, rfl, hm, hu⟩
    exact .negation hm hu
  case primary => exact fun w hw => .primary hw
  case name =>
    rintro w ⟨i, _, rfl, hi, rfl⟩
    exact .name hi
  case call =>
    rintro w ⟨i, _, rfl, hi, l, _, rfl, hl, as, _, rfl, has, r, _, rfl, hr, rfl⟩
    rcases has with rfl | ⟨e, _, he, ⟨es, hcommas, hes, rfl⟩, rfl⟩
    · exact .callNothing hi hl hr
    · rw [List.append_assoc]
      exact .call hi hl he hcommas hes hr
  case integer =>
    rintro w ⟨x, _, rfl, hx, rfl⟩
    exact .integer hx
  case float =>
    rintro w ⟨x, _, rfl, hx, rfl⟩
    exact .float hx
  case string =>
    rintro w ⟨x, _, rfl, hx, rfl⟩
    exact .string hx
  case group =>
    rintro w ⟨l, _, rfl, hl, e, _, rfl, he, r, _, rfl, hr, rfl⟩
    exact .group hl he hr
  case some => exact fun w hw => .inr hw
  case none => exact fun w hw => .inl hw
  case list =>
    rintro w ⟨e, v, rfl, he, hv⟩
    exact ⟨e, v, he, hv, rfl⟩
  case more =>
    rintro w ⟨c, _, rfl, hc, e, v, rfl, he, hv⟩
    exact .cons hc he hv
  case done =>
    rintro w rfl
    exact .nil

lemma meaning_of_body {p : Production} (hp : p ∈ productions) {w : List Token}
    (hw : Spells p.body w) : Meaning p.name w := by
  rw [← List.take_append_drop 14 productions, List.mem_append] at hp
  rcases hp with hp | hp
  · exact meaning_of_declaration p hp w hw
  · rw [← List.take_append_drop 16 (productions.drop 14), List.mem_append] at hp
    exact hp.elim (meaning_of_statement p · w hw) (meaning_of_expression p · w hw)

variable {g : Grammar}

lemma Spells.cons {x : Symbol} {xs : List Symbol} {u v : List Token} (hu : Spells [x] u)
    (hv : Spells xs v) : Spells (x :: xs) (u ++ v) := by
  cases x with
  | terminal y =>
    obtain ⟨z, _, rfl, hz, rfl⟩ := hu
    exact ⟨z, v, rfl, hz, hv⟩
  | nonTerminal a =>
    cases xs with
    | nil =>
      obtain rfl : v = [] := hv
      rwa [List.append_nil]
    | cons x xs => exact ⟨u, v, rfl, hu, hv⟩

mutual

/-- What is derived from a symbol is a word of it. -/
theorem spells_of_derives (hg : grammar = .ok g) : ∀ {T : Tree} {x : Symbol}, g.Derives x T →
    Spells [x] T.word
  | .leaf z, _, .leaf hz => ⟨z, [], rfl, hz, rfl⟩
  | .node _ _, _, .node hp hts =>
    meaning_of_body (mem_productions hg hp) (spells_of_derivesAll hg hts)

/-- What is derived from symbols are words of them. -/
theorem spells_of_derivesAll (hg : grammar = .ok g) : ∀ {ts : List Tree} {xs : List Symbol},
    g.DerivesAll xs ts → Spells xs (Tree.wordAll ts)
  | [], _, .nil => rfl
  | _ :: _, _, .cons hT hts => .cons (spells_of_derives hg hT) (spells_of_derivesAll hg hts)

end

/-- **What the productions derive is a program.** -/
theorem program_of_derives (hg : grammar = .ok g) {T : Tree}
    (hT : g.Derives (.nonTerminal g.start) T) : IsProgram T.word := by
  rw [start_eq hg] at hT
  have hmeaning : Meaning "Program" T.word := spells_of_derives hg hT
  exact hmeaning

/-! ### Trees of phrases -/

/-- A word with a derivation tree of a symbol that is preferred whatever comes behind it, as far as
this is input of some kind. -/
def HasTree (g : Grammar) (behind : List Token → Prop) (x : Symbol) (w : List Token) : Prop :=
  ∃ T, g.Derives x T ∧ T.word = w ∧ ∀ rest, behind rest → T.Preferred rest

/-- A word with derivation trees of symbols that are preferred whatever comes behind it, as far as
this is input of some kind. -/
def HasTrees (g : Grammar) (behind : List Token → Prop) (xs : List Symbol) (w : List Token) :
    Prop :=
  ∃ ts, g.DerivesAll xs ts ∧ Tree.wordAll ts = w ∧ ∀ rest, behind rest → Tree.PreferredAll ts rest

/-- Input that does not go on with an operator. -/
def Ended (rest : List Token) : Prop := ∀ z ∈ rest.head?, z.type ≠ .operator

/-- Any input. -/
def Anything (_ : List Token) : Prop := True

section

variable {behind behind' : List Token → Prop} {x : Symbol} {xs : List Symbol} {u v w : List Token}

lemma HasTree.token {y : Terminal} {z : Token} (hz : y.accepts z.type z.text = true) :
    HasTree g behind (.terminal y) [z] :=
  ⟨.leaf z, .leaf hz, rfl, fun _ _ => trivial⟩

lemma HasTrees.nil : HasTrees g behind [] [] := ⟨[], .nil, rfl, fun _ _ => trivial⟩

lemma HasTrees.cons (h : HasTree g behind' x u) (hs : HasTrees g behind xs v)
    (hbehind : ∀ rest, behind rest → behind' (v ++ rest)) :
    HasTrees g behind (x :: xs) (u ++ v) := by
  obtain ⟨T, hT, rfl, hpreferred⟩ := h
  obtain ⟨ts, hts, rfl, hall⟩ := hs
  exact ⟨T :: ts, .cons hT hts, rfl, fun rest hrest =>
    ⟨hpreferred _ (hbehind rest hrest), hall rest hrest⟩⟩

lemma HasTrees.last (h : HasTree g behind x u) : HasTrees g behind [x] u := by
  have := HasTrees.cons h .nil fun _ hrest => hrest
  rwa [List.append_nil] at this

lemma HasTrees.token {y : Terminal} {z : Token} (hz : y.accepts z.type z.text = true)
    (hs : HasTrees g behind xs v) : HasTrees g behind (.terminal y :: xs) (z :: v) :=
  .cons (show HasTree g Anything (.terminal y) [z] from .token hz) hs fun _ _ => trivial

lemma HasTree.node (hg : grammar = .ok g) {p : Production} (hp : p ∈ productions)
    (hbinary : p.name = "Expression" → p.body.length = 1 → ∀ rest, behind rest →
      ¬ Assigning (w ++ rest)) (hs : HasTrees g behind p.body w) :
    HasTree g behind (part p.name) w := by
  obtain ⟨i, hi⟩ := exists_production hg hp
  obtain ⟨ts, hts, rfl, hall⟩ := hs
  exact ⟨.node p.name ts, .node hi hts, rfl, fun rest hrest =>
    ⟨fun hname hlength => hbinary hname (hts.length_eq ▸ hlength) rest hrest, hall rest hrest⟩⟩

/-- A tree that is no expression. -/
lemma HasTree.plain (hg : grammar = .ok g) {a : String} {body : List Symbol}
    (hp : ⟨a, body⟩ ∈ productions) (ha : a ≠ "Expression") (hs : HasTrees g behind body w) :
    HasTree g behind (part a) w :=
  .node hg hp (fun hname => absurd hname ha) hs

/-- A name for any number of what another symbol stands for. -/
lemma hasTree_many (hg : grammar = .ok g) {a : String} (ha : a ≠ "Expression")
    (hnil : ⟨a, []⟩ ∈ productions) (hcons : ⟨a, [x, part a]⟩ ∈ productions)
    {ws : List (List Token)} (h : ∀ w ∈ ws, HasTree g Anything x w) :
    HasTree g Anything (part a) ws.flatten := by
  induction ws with
  | nil => exact .plain hg hnil ha .nil
  | cons w ws ih =>
    obtain ⟨hw, hws⟩ := List.forall_mem_cons.mp h
    exact .plain hg hcons ha (.cons hw (.last (ih hws)) fun _ _ => trivial)

/-- A name for any number of what another symbol stands for, each behind a token. -/
lemma hasTree_chain (behind' : List Token → Prop) (hg : grammar = .ok g) {a : String}
    (ha : a ≠ "Expression") {y : Terminal}
    (hnil : ⟨a, []⟩ ∈ productions) (hcons : ⟨a, [.terminal y, x, part a]⟩ ∈ productions)
    (hbehind : ∀ es : List (Token × List Token),
      (∀ e ∈ es, y.accepts e.1.type e.1.text = true) →
        ∀ rest, behind rest → behind' (chain es ++ rest))
    {es : List (Token × List Token)} (hsep : ∀ e ∈ es, y.accepts e.1.type e.1.text = true)
    (h : ∀ e ∈ es, HasTree g behind' x e.2) : HasTree g behind (part a) (chain es) := by
  induction es with
  | nil => exact .plain hg hnil ha .nil
  | cons e es ih =>
    obtain ⟨he, hes⟩ := List.forall_mem_cons.mp h
    obtain ⟨hz, hzs⟩ := List.forall_mem_cons.mp hsep
    exact .plain hg hcons ha (.token hz (.cons he (.last (ih hzs hes)) (hbehind es hzs)))

end

/-! ### Expressions -/

lemma ended_mark {z : Token} {text : String} (hz : z.Is .punctuation text) (rest : List Token) :
    Ended (z :: rest) := by
  rintro _ ⟨⟩
  rw [hz.1]
  decide

lemma ended_chain {text : String} (es : List (Token × List Token))
    (hes : ∀ e ∈ es, (Terminal.literal .punctuation text).accepts e.1.type e.1.text = true)
    (rest : List Token) (hrest : Ended rest) : Ended (chain es ++ rest) := by
  cases es with
  | nil => exact hrest
  | cons e es => exact ended_mark (Terminal.accepts_literal.mp (hes e (by simp))) _

lemma Assigning.head {x : Token} {w : List Token} (h : Assigning (x :: w)) :
    x.type = .identifier := by
  cases w with
  | nil => cases h
  | cons y w => exact h.1

/-- An operand that reads as the target of an assignment is an identifier. -/
lemma Phrase.exists_identifier {u v : List Token} (hu : Phrase .unary u)
    (h : Assigning (u ++ v)) : ∃ i, i.type = .identifier ∧ u = [i] := by
  -- Behind the identifier of a call is a parenthesis; nothing else begins with an identifier.
  cases hu with
  | negative hm _ => exact absurd (hm.1.symm.trans h.head) (by decide)
  | negation hm _ => exact absurd (hm.1.symm.trans h.head) (by decide)
  | primary hu =>
    cases hu with
    | name hi => exact ⟨_, hi, rfl⟩
    | callNothing _ hl _ => exact absurd (hl.1.symm.trans h.2.1) (by decide)
    | call _ hl _ _ _ _ => exact absurd (hl.1.symm.trans h.2.1) (by decide)
    | integer hx => exact absurd (hx.symm.trans h.head) (by decide)
    | float hx => exact absurd (hx.symm.trans h.head) (by decide)
    | string hx => exact absurd (hx.symm.trans h.head) (by decide)
    | group hl _ _ => exact absurd (hl.1.symm.trans h.head) (by decide)

lemma Phrase.ne_nil {u : List Token} (hu : Phrase .unary u) : u ≠ [] := by
  cases hu with
  | negative _ _ => exact List.cons_ne_nil _ _
  | negation _ _ => exact List.cons_ne_nil _ _
  | primary hu => cases hu <;> exact List.cons_ne_nil _ _

/-- What does not read as an assignment by itself does not do so before what ends an expression. -/
lemma not_assigning_append {w rest : List Token} (hw : w ≠ []) (h : ¬ Assigning w)
    (hrest : Ended rest) : ¬ Assigning (w ++ rest) := by
  cases w with
  | nil => exact absurd rfl hw
  | cons x w =>
    cases w with
    | cons y w => exact h
    | nil =>
      cases rest with
      | nil => exact h
      | cons y rest =>
        rintro ⟨-, hy, -⟩
        exact hrest y rfl hy

/-- Operands and operators that do not read as an assignment have the tree of a binary
expression. -/
lemma hasTree_binary (hg : grammar = .ok g) {es : List (Token × List Token)}
    (hops : ∀ e ∈ es, e.1.type = .operator)
    (htrees : ∀ e ∈ es, HasTree g Anything (part "Unary") e.2) {u : List Token}
    (hu : Phrase .unary u) (htree : HasTree g Anything (part "Unary") u)
    (h : ¬ Assigning (u ++ chain es)) : HasTree g Ended (part "Expression") (u ++ chain es) := by
  have htail : HasTree g Ended (part "BinaryTail") (chain es) :=
    hasTree_chain Anything hg (by decide) (by decide) (by decide)
      (fun _ _ _ _ => trivial) (fun e he => Terminal.accepts_any.mpr (hops e he)) htrees
  have hbinary : HasTree g Ended (part "Binary") (u ++ chain es) :=
    .plain hg (by decide) (by decide) (.cons htree (.last htail) fun _ _ => trivial)
  refine .node hg (p := ⟨"Expression", [part "Binary"]⟩) (by decide)
    (fun _ _ rest hrest => ?_) (.last hbinary)
  exact not_assigning_append (by simp [hu.ne_nil]) h hrest

/-- **Operands and operators have a preferred tree**: it is that of an assignment if they read as
one. -/
lemma hasTree_expression (hg : grammar = .ok g) {es : List (Token × List Token)}
    (hops : ∀ e ∈ es, e.1.type = .operator) (hphrases : ∀ e ∈ es, Phrase .unary e.2)
    (htrees : ∀ e ∈ es, HasTree g Anything (part "Unary") e.2) {u : List Token}
    (hu : Phrase .unary u) (htree : HasTree g Anything (part "Unary") u) :
    HasTree g Ended (part "Expression") (u ++ chain es) := by
  induction es generalizing u with
  | nil =>
    refine hasTree_binary hg hops htrees hu htree fun h => ?_
    obtain ⟨i, -, rfl⟩ := hu.exists_identifier h
    exact h
  | cons e es ih =>
    by_cases h : Assigning (u ++ chain (e :: es))
    · obtain ⟨i, hi, rfl⟩ := hu.exists_identifier h
      obtain ⟨hphrase, hphrases⟩ := List.forall_mem_cons.mp hphrases
      obtain ⟨htree, htrees⟩ := List.forall_mem_cons.mp htrees
      have he := ih (List.forall_mem_cons.mp hops).2 hphrases htrees hphrase htree
      exact .node hg (p := ⟨"Expression", [any .identifier, operator "=", part "Expression"]⟩)
        (by decide) (fun _ hlength => absurd hlength (by simp))
        (.token (Terminal.accepts_any.mpr hi)
          (.token (Terminal.accepts_literal.mpr h.2) (.last he)))
    · exact hasTree_binary hg hops htrees hu htree h

/-! ### Trees of phrases -/

/-- The name that phrases of a kind are derived from. -/
def Kind.name : Kind → String
  | function => "Function"
  | statement => "Statement"
  | block => "Block"
  | conditional => "IfStatement"
  | expression => "Expression"
  | unary => "Unary"
  | primary => "Primary"

/-- The input that may come behind phrases of a kind. -/
def Kind.Behind : Kind → List Token → Prop
  | expression => Ended
  | _ => Anything

section

variable {behind : List Token → Prop} {xs : List Symbol} {v : List Token}

lemma HasTrees.given {z : Token} {type : TokenType} {text : String} (hz : z.Is type text)
    (hs : HasTrees g behind xs v) :
    HasTrees g behind (.terminal (.literal type text) :: xs) (z :: v) :=
  .token (Terminal.accepts_literal.mpr hz) hs

lemma HasTrees.any {z : Token} {type : TokenType} (hz : z.type = type)
    (hs : HasTrees g behind xs v) : HasTrees g behind (Script.any type :: xs) (z :: v) :=
  .token (Terminal.accepts_any.mpr hz) hs

/-- An expression before a closing character. -/
lemma HasTrees.closed {e : List Token} {z : Token} {text : String}
    (he : HasTree g Ended (part "Expression") e) (hz : z.Is .punctuation text)
    (hs : HasTrees g behind xs v) :
    HasTrees g behind (part "Expression" :: mark text :: xs) (e ++ z :: v) :=
  .cons he (.given hz hs) fun _ _ => ended_mark hz _

end

/-- A statement of some form. -/
lemma hasTree_statement (hg : grammar = .ok g) {a : String} {w : List Token}
    (hp : ⟨"Statement", [part a]⟩ ∈ productions) (h : HasTree g Anything (part a) w) :
    HasTree g Anything (part "Statement") w :=
  .plain hg hp (by decide) (.last h)

lemma hasTree_parameters (hg : grammar = .ok g) {w : List Token} (h : w = [] ∨ Parameters w) :
    HasTree g Anything (part "Parameters") w := by
  rcases h with rfl | ⟨i, v, hi, ⟨es, hcommas, hes, rfl⟩, rfl⟩
  · exact .plain hg (by decide) (by decide) .nil
  · have htail : HasTree g Anything (part "ParameterTail") (chain es) := by
      refine hasTree_chain (x := any .identifier) Anything hg (by decide)
        (by decide) (by decide) (fun _ _ _ _ => trivial)
        (fun e he => Terminal.accepts_literal.mpr (hcommas e he)) fun e he => ?_
      obtain ⟨j, hj, hej⟩ := hes e he
      rw [hej]
      exact .token (Terminal.accepts_any.mpr hj)
    have hlist : HasTree g Anything (part "ParameterList") (i :: chain es) :=
      .plain hg (by decide) (by decide) (.any hi (.last htail))
    exact .plain hg (by decide) (by decide) (.last hlist)

lemma hasTree_arguments (hg : grammar = .ok g) {e : List Token} {es : List (Token × List Token)}
    (hcommas : ∀ e ∈ es, e.1.Is .punctuation ",") (he : HasTree g Ended (part "Expression") e)
    (hes : ∀ e ∈ es, HasTree g Ended (part "Expression") e.2) :
    HasTree g Ended (part "Arguments") (e ++ chain es) := by
  have hseparated := fun e he => Terminal.accepts_literal.mpr (hcommas e he)
  have htail : HasTree g Ended (part "ArgumentTail") (chain es) :=
    hasTree_chain Ended hg (by decide) (by decide) (by decide) ended_chain hseparated hes
  have hlist : HasTree g Ended (part "ArgumentList") (e ++ chain es) :=
    .plain hg (by decide) (by decide) (.cons he (.last htail) (ended_chain es hseparated))
  exact .plain hg (by decide) (by decide) (.last hlist)

lemma hasTree_conditional (hg : grammar = .ok g) {k l r : Token} {e b c : List Token}
    (hk : k.Is .keyword "if") (hl : l.Is .punctuation "(")
    (he : HasTree g Ended (part "Expression") e) (hr : r.Is .punctuation ")")
    (hb : HasTree g Anything (part "Block") b) (hc : HasTree g Anything (part "ElseClause") c) :
    HasTree g Anything (part "IfStatement") (k :: l :: (e ++ r :: (b ++ c))) :=
  .plain hg (by decide) (by decide)
    (.given hk (.given hl (.closed he hr (.cons hb (.last hc) fun _ _ => trivial))))

/-- **Every phrase has a preferred derivation tree.** -/
theorem Phrase.hasTree (hg : grammar = .ok g) {k : Kind} {w : List Token} (h : Phrase k w) :
    HasTree g k.Behind (part k.name) w := by
  induction h with
  | function hf hi hl hps hr _ hb =>
    exact .plain hg (by decide) (by decide) (.given hf (.any hi (.given hl
      (.cons (hasTree_parameters hg hps) (.given hr (.last hb)) fun _ _ => trivial))))
  | declaration hv hi hs =>
    exact hasTree_statement hg (a := "VarStatement") (by decide)
      (.plain hg (by decide) (by decide) (.given hv (.any hi (.given hs .nil))))
  | definition hv hi ha _ hs he =>
    exact hasTree_statement hg (a := "VarStatement") (by decide)
      (.plain hg (by decide) (by decide)
        (.given hv (.any hi (.given ha (.closed he hs .nil)))))
  | computation _ hs he =>
    exact hasTree_statement hg (a := "ExpressionStatement") (by decide)
      (.plain hg (by decide) (by decide) (.closed he hs .nil))
  | conditional _ h => exact hasTree_statement hg (by decide) h
  | loop hk hl _ hr _ he hb =>
    exact hasTree_statement hg (a := "WhileStatement") (by decide)
      (.plain hg (by decide) (by decide) (.given hk (.given hl (.closed he hr (.last hb)))))
  | returnNothing hk hs =>
    exact hasTree_statement hg (a := "ReturnStatement") (by decide)
      (.plain hg (by decide) (by decide) (.given hk (.given hs .nil)))
  | returnValue hk _ hs he =>
    exact hasTree_statement hg (a := "ReturnStatement") (by decide)
      (.plain hg (by decide) (by decide) (.given hk (.closed he hs .nil)))
  | nested _ h => exact hasTree_statement hg (by decide) h
  | block hl _ hr hws =>
    have hstatements : HasTree g Anything (part "Statements") _ :=
      hasTree_many hg (by decide) (by decide) (by decide) hws
    exact .plain hg (by decide) (by decide)
      (.given hl (.cons hstatements (.given hr .nil) fun _ _ => trivial))
  | ifThen hk hl _ hr _ he hb =>
    have helse : HasTree g Anything (part "ElseClause") [] :=
      .plain hg (by decide) (by decide) .nil
    have htree := hasTree_conditional hg hk hl he hr hb helse
    rwa [List.append_nil] at htree
  | ifElse hk hl _ hr _ hn _ he hb hc =>
    exact hasTree_conditional hg hk hl he hr hb
      (.plain hg (by decide) (by decide) (.given hn (.last hc)))
  | ifElseIf hk hl _ hr _ hn _ he hb hc =>
    exact hasTree_conditional hg hk hl he hr hb
      (.plain hg (by decide) (by decide) (.given hn (.last hc)))
  | assignment hi ha _ he =>
    exact .node hg (p := ⟨"Expression", [any .identifier, operator "=", part "Expression"]⟩)
      (by decide) (fun _ hlength => absurd hlength (by simp))
      (.any hi (.given ha (.last he)))
  | binary hu hops hphrases htree htrees =>
    exact hasTree_expression hg hops hphrases htrees hu htree
  | negative hm _ hu =>
    exact .plain hg (by decide) (by decide) (.given hm (.last hu))
  | negation hm _ hu =>
    exact .plain hg (by decide) (by decide) (.given hm (.last hu))
  | primary _ h => exact .plain hg (by decide) (by decide) (.last h)
  | name hi => exact .plain hg (by decide) (by decide) (.any hi .nil)
  | callNothing hi hl hr =>
    have hnone : HasTree g Anything (part "Arguments") [] :=
      .plain hg (by decide) (by decide) .nil
    exact .plain hg (by decide) (by decide)
      (.any hi (.given hl (.cons hnone (.given hr .nil) fun _ _ => trivial)))
  | call hi hl _ hcommas _ hr he hes =>
    rw [← List.append_assoc]
    exact .plain hg (by decide) (by decide) (.any hi (.given hl
      (.cons (hasTree_arguments hg hcommas he hes) (.given hr .nil) fun _ _ => ended_mark hr _)))
  | integer hx => exact .plain hg (by decide) (by decide) (.any hx .nil)
  | float hx => exact .plain hg (by decide) (by decide) (.any hx .nil)
  | string hx => exact .plain hg (by decide) (by decide) (.any hx .nil)
  | group hl _ hr he =>
    exact .plain hg (by decide) (by decide) (.given hl (.closed he hr .nil))

/-- **Every program has a preferred derivation tree.** -/
theorem exists_tree_of_program (hg : grammar = .ok g) {w : List Token} (h : IsProgram w) :
    ∃ T, g.Derives (.nonTerminal g.start) T ∧ T.word = w ∧ T.Preferred [] := by
  obtain ⟨ws, hws, rfl⟩ := h
  have hdeclarations : HasTree g Anything (part "Declarations") ws.flatten := by
    refine hasTree_many hg (x := part "Declaration") (by decide) (by decide)
      (by decide) fun w hw => ?_
    rcases hws w hw with hw | hw
    · exact .plain hg (by decide) (by decide) (.last (hw.hasTree hg))
    · exact .plain hg (by decide) (by decide) (.last (hw.hasTree hg))
  obtain ⟨T, hT, hword, hpreferred⟩ : HasTree g Anything (part "Program") ws.flatten :=
    .plain hg (by decide) (by decide) (.last hdeclarations)
  rw [start_eq hg]
  exact ⟨T, hT, hword, hpreferred [] trivial⟩

end Script
end Coscript
