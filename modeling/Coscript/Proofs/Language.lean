import Coscript.Proofs.Completeness
import Coscript.Proofs.Documents
import Coscript.Proofs.Lexing
import Coscript.Scheduler.Setup

/-!
# The trees of scripts

The document that says how scripts are written is read to an explicit list of productions. Only one
of them takes string literals, and it takes nothing else; so a text that holds the character zero is
in a tree of a script only as the whole of a constant.

* `Script.grammar_eq_build`: the productions of the language;
* `Script.plain_of_parse`: where texts with zero can be in a tree.
-/

namespace Coscript

namespace Script

/-! ### Productions -/

/-- A keyword. -/
def keyword (text : String) : Symbol := .terminal (.literal .keyword text)

/-- A punctuation character. -/
def mark (text : String) : Symbol := .terminal (.literal .punctuation text)

/-- A given operator. -/
def operator (text : String) : Symbol := .terminal (.literal .operator text)

/-- Any token of a type. -/
def any (type : TokenType) : Symbol := .terminal (.any type)

/-- A name of the language. -/
def part (name : String) : Symbol := .nonTerminal name

/-- The productions of the language. -/
def productions : List Production := [
  ⟨"Program", [part "Declarations"]⟩,
  ⟨"Declarations", [part "Declaration", part "Declarations"]⟩,
  ⟨"Declarations", []⟩,
  ⟨"Declaration", [part "Function"]⟩,
  ⟨"Declaration", [part "Statement"]⟩,
  ⟨"Function", [keyword "function", any .identifier, mark "(", part "Parameters", mark ")",
    part "Block"]⟩,
  ⟨"Parameters", [part "ParameterList"]⟩,
  ⟨"Parameters", []⟩,
  ⟨"ParameterList", [any .identifier, part "ParameterTail"]⟩,
  ⟨"ParameterTail", [mark ",", any .identifier, part "ParameterTail"]⟩,
  ⟨"ParameterTail", []⟩,
  ⟨"Block", [mark "\x7b", part "Statements", mark "\x7d"]⟩,
  ⟨"Statements", [part "Statement", part "Statements"]⟩,
  ⟨"Statements", []⟩,
  ⟨"Statement", [part "VarStatement"]⟩,
  ⟨"Statement", [part "IfStatement"]⟩,
  ⟨"Statement", [part "WhileStatement"]⟩,
  ⟨"Statement", [part "ReturnStatement"]⟩,
  ⟨"Statement", [part "ExpressionStatement"]⟩,
  ⟨"Statement", [part "Block"]⟩,
  ⟨"VarStatement", [keyword "var", any .identifier, mark ";"]⟩,
  ⟨"VarStatement", [keyword "var", any .identifier, operator "=", part "Expression", mark ";"]⟩,
  ⟨"IfStatement", [keyword "if", mark "(", part "Expression", mark ")", part "Block",
    part "ElseClause"]⟩,
  ⟨"ElseClause", [keyword "else", part "Block"]⟩,
  ⟨"ElseClause", [keyword "else", part "IfStatement"]⟩,
  ⟨"ElseClause", []⟩,
  ⟨"WhileStatement", [keyword "while", mark "(", part "Expression", mark ")", part "Block"]⟩,
  ⟨"ReturnStatement", [keyword "return", mark ";"]⟩,
  ⟨"ReturnStatement", [keyword "return", part "Expression", mark ";"]⟩,
  ⟨"ExpressionStatement", [part "Expression", mark ";"]⟩,
  ⟨"Expression", [any .identifier, operator "=", part "Expression"]⟩,
  ⟨"Expression", [part "Binary"]⟩,
  ⟨"Binary", [part "Unary", part "BinaryTail"]⟩,
  ⟨"BinaryTail", [any .operator, part "Unary", part "BinaryTail"]⟩,
  ⟨"BinaryTail", []⟩,
  ⟨"Unary", [operator "-", part "Unary"]⟩,
  ⟨"Unary", [operator "!", part "Unary"]⟩,
  ⟨"Unary", [part "Primary"]⟩,
  ⟨"Primary", [any .identifier]⟩,
  ⟨"Primary", [any .identifier, mark "(", part "Arguments", mark ")"]⟩,
  ⟨"Primary", [any .integer]⟩,
  ⟨"Primary", [any .float]⟩,
  ⟨"Primary", [any .string]⟩,
  ⟨"Primary", [mark "(", part "Expression", mark ")"]⟩,
  ⟨"Arguments", [part "ArgumentList"]⟩,
  ⟨"Arguments", []⟩,
  ⟨"ArgumentList", [part "Expression", part "ArgumentTail"]⟩,
  ⟨"ArgumentTail", [mark ",", part "Expression", part "ArgumentTail"]⟩,
  ⟨"ArgumentTail", []⟩]

/-- Whether a document with these lines has a start symbol and productions. -/
def reads (lines : List (List Char)) (start : String) (ps : List Production) : Bool :=
  match Document.Draft.addLines ⟨none, []⟩ (lines.zipIdx 1) with
  | .error _ => false
  | .ok d =>
    let rules := d.rules.reverse
    decide (d.start? = some start) &&
      match Document.productions (fun s => rules.any fun r => r.1 = s) rules with
      | .error _ => false
      | .ok found => decide (found = ps)

lemma parse_of_reads {text start : String} {ls : List (List Char)} {ps : List Production}
    (hlines : Line.all text.toList = ls) (h : reads ls start ps = true) :
    Document.parse text = Grammar.build start ps := by
  unfold reads at h
  unfold Document.parse
  rw [hlines]
  generalize Document.Draft.addLines ⟨none, []⟩ (ls.zipIdx 1) = draft at h ⊢
  cases draft with
  | error e => cases h
  | ok d =>
    obtain ⟨hstart, hps⟩ := Bool.and_eq_true_iff.mp h
    have hstart : d.start? = some start := of_decide_eq_true hstart
    simp only [bind, Except.bind, hstart]
    generalize Document.productions _ d.rules.reverse = found at hps ⊢
    cases found with
    | error e => cases hps
    | ok found =>
      obtain rfl : found = ps := of_decide_eq_true hps
      rfl

/-- **The productions of the language.** -/
theorem grammar_eq_build : grammar = Grammar.build "Program" productions := by
  have hlines : ∀ l ∈ lines.map String.toList, '\n' ∉ l ∧ '\r' ∉ l := by decide +kernel
  have hend : "\n".toList = ['\n'] := by decide
  have htext : document.toList = (lines.map String.toList).flatMap fun l => l ++ ['\n'] := by
    simp only [document, String.toList_join, List.flatMap_map, String.toList_append, hend]
  have hall : Line.all document.toList = lines.map String.toList := by
    rw [htext, Line.all_flatMap hlines]
  have hreads : reads (lines.map String.toList) "Program" productions = true := by decide +kernel
  unfold grammar
  exact parse_of_reads hall hreads

end Script

/-! ### Texts with zero -/

lemma Tree.mem_wordAll_of_leaf {x : Token} {ts : List Tree} (h : .leaf x ∈ ts) :
    x ∈ wordAll ts := by
  induction ts with
  | nil => cases h
  | cons t ts ih =>
    rw [wordAll, List.mem_append]
    rcases List.mem_cons.mp h with rfl | h
    · exact .inl (List.mem_singleton.mpr rfl)
    · exact .inr (ih h)

/-- A tree in which a text with zero is a string literal and the whole of a constant. -/
inductive Tree.Plain : Tree → Prop
  | leaf (x : Token) : Plain (.leaf x)
  | node {name : String} {cs : List Tree}
      (h : ∀ x, .leaf x ∈ cs → ¬ ZeroFree x.text →
        name = "Primary" ∧ cs.length = 1 ∧ x.type = .string)
      (hs : ∀ c ∈ cs, Plain c) : Plain (.node name cs)

namespace Script

/-- String literals are constants. -/
lemma eq_primary_of_string : ∀ p ∈ productions, ∀ s ∈ p.body, ∀ u, s = .terminal u →
    u.tokenType = .string → p.name = "Primary" ∧ p.body.length = 1 := by
  have hall : ∀ p ∈ productions,
      (∃ u ∈ (Grammar.terminalsOf #[p]).values, u.tokenType = .string) →
        p.name = "Primary" ∧ p.body.length = 1 := by
    decide +kernel
  intro p hp s hs u he hu
  refine hall p hp ⟨u, ?_, hu⟩
  subst he
  suffices h : ∃ n, (Grammar.terminalsOf #[p]).get? n = some u by
    obtain ⟨n, hn⟩ := h
    exact Array.mem_of_getElem? hn
  refine Numbering.exists_get?_ofList.mpr (List.mem_append_right _ (List.mem_flatMap.mpr ?_))
  exact ⟨p, List.mem_singleton.mpr rfl, List.mem_filterMap.mpr ⟨_, hs, rfl⟩⟩

variable {g : Grammar}

/-- The token of a leaf has the type that its terminal asks for. -/
lemma type_of_derives {u : Terminal} {x : Token} (h : g.Derives (.terminal u) (.leaf x)) :
    u.tokenType = x.type := by
  cases h with
  | leaf h =>
    cases u with
    | any type => simpa [Terminal.accepts, Terminal.tokenType] using h
    | literal type text =>
      simp only [Terminal.accepts, Bool.and_eq_true, decide_eq_true_eq] at h
      exact h.1
    | epsilon => cases h
    | endOfInput => cases h

lemma exists_terminal_of_mem {x : Token} {ss : List Symbol} {ts : List Tree}
    (h : g.DerivesAll ss ts) (hx : .leaf x ∈ ts) : ∃ u, .terminal u ∈ ss ∧ u.tokenType = x.type := by
  induction ts generalizing ss with
  | nil => cases hx
  | cons t ts ih =>
    cases h with
    | cons h hs =>
      rcases List.mem_cons.mp hx with rfl | hx
      · cases h with
        | leaf h => exact ⟨_, by simp, type_of_derives (.leaf (g := g) h)⟩
      · obtain ⟨u, hu, htype⟩ := ih hs hx
        exact ⟨u, by simp [hu], htype⟩

lemma mem_productions (hg : grammar = .ok g) {i : Nat} {p : Production}
    (hp : g.production? i = some p) : p ∈ productions := by
  have hbuild : Grammar.build "Program" productions = .ok g := grammar_eq_build.symm.trans hg
  rw [Grammar.production?, Grammar.productions_of_build hbuild, List.getElem?_toArray] at hp
  exact List.mem_of_getElem? hp

mutual

/-- A derivation tree of tokens of a script is plain. -/
lemma plain_of_derives (hg : ∀ i p, g.production? i = some p → p ∈ productions) :
    ∀ {s : Symbol} {t : Tree}, g.Derives s t →
    (∀ x ∈ t.word, x.type ≠ .string → ZeroFree x.text) → t.Plain
  | _, .leaf x, _, _ => .leaf x
  | _, .node _ ts, .node (p := p) hp h, hword => by
    have hmem : p ∈ productions := hg _ p hp
    refine .node ?_ (plainAll_of_derives hg h hword)
    intro x hx hzero
    obtain ⟨u, hu, htype⟩ := exists_terminal_of_mem h hx
    have hstring : x.type = .string := by
      by_contra hne
      exact hzero (hword x (Tree.mem_wordAll_of_leaf hx) hne)
    obtain ⟨hname, hlength⟩ := eq_primary_of_string p hmem _ hu u rfl (htype.trans hstring)
    exact ⟨hname, h.length_eq.trans hlength, hstring⟩

/-- Derivation trees of tokens of a script are plain. -/
lemma plainAll_of_derives (hg : ∀ i p, g.production? i = some p → p ∈ productions) :
    ∀ {ss : List Symbol} {ts : List Tree},
    g.DerivesAll ss ts → (∀ x ∈ Tree.wordAll ts, x.type ≠ .string → ZeroFree x.text) →
    ∀ t ∈ ts, t.Plain
  | _, [], _, _ => by simp
  | _, t :: ts, .cons h hs, hword => by
    refine List.forall_mem_cons.mpr ⟨?_, ?_⟩
    · exact plain_of_derives hg h fun x hx => hword x (by simp [Tree.wordAll, hx])
    · exact plainAll_of_derives hg hs fun x hx => hword x (by simp [Tree.wordAll, hx])

end

lemma exists_build_of_constructTableOf {strategy : Strategy} {j : Journal} {t : ParsingTable}
    {found : Except GrammarError Grammar} (ht : (constructTableOf strategy j found).2 = .ok t) :
    ∃ g, found = .ok g ∧ strategy.build g = .ok t := by
  cases found with
  | error e => cases ht
  | ok g =>
    refine ⟨g, rfl, ?_⟩
    show (strategy.construct g).outcome = .ok t
    change (strategy.construct g).outcome.mapError SetupError.table = .ok t at ht
    generalize (strategy.construct g).outcome = outcome at ht ⊢
    cases outcome with
    | error e => cases ht
    | ok t' =>
      cases ht
      rfl

lemma constructTableOf_eq_ok {strategy : Strategy} {t : ParsingTable} (j : Journal)
    (ht : strategy.build g = .ok t) : (constructTableOf strategy j (.ok g)).2 = .ok t := by
  show (strategy.construct g).outcome.mapError SetupError.table = .ok t
  rw [show (strategy.construct g).outcome = .ok t from ht]
  rfl

lemma plain_of_build {strategy : Strategy} {t : ParsingTable}
    (hg : ∀ i p, g.production? i = some p → p ∈ productions) (ht : strategy.build g = .ok t)
    {source : String} {tokens : List Token}
    (htokens : Lexer.tokenize .script source = .ok tokens) {fuel : Nat} {tree : Tree}
    (h : t.parse fuel tokens = some (.ok tree)) : tree.Plain := by
  obtain ⟨production, hp, hbuilt⟩ := Strategy.built ht
  obtain ⟨I, hcovers⟩ := hbuilt.covers hp
  obtain ⟨k, -, hend⟩ := Configuration.exists_endsAfter h
  obtain ⟨hderives, hword, -⟩ := hcovers.sound hp hend
  refine plain_of_derives hg hderives fun x hx => ?_
  rw [hword] at hx
  exact Lexer.zeroFree_of_tokenize htokens x hx

/-- **The tree of a script is plain.** -/
theorem plain_of_parse {strategy : Strategy} {j : Journal} {t : ParsingTable}
    (ht : (constructTable strategy j).2 = .ok t) {source : String} {tokens : List Token}
    (htokens : Lexer.tokenize .script source = .ok tokens) {fuel : Nat} {tree : Tree}
    (h : t.parse fuel tokens = some (.ok tree)) : tree.Plain := by
  obtain ⟨g, hg, hbuild⟩ := exists_build_of_constructTableOf ht
  exact plain_of_build (fun i p => mem_productions hg) hbuild htokens h

end Script

end Coscript
