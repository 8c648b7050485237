import Coscript.Proofs.Relexing
import Coscript.Proofs.WrittenGrammars

/-!
# Printed grammars are read back

The text of a grammar is a document. If the grammar came from a document, and none of its terminals
is a string literal, then it is the grammar of its text: the same start symbol, the same productions
in the same order, and the same terminals with the same numbers. A rule with an alternation has
become several rules by then, and each symbol of a body is printed as one token, which is a slot of
its own.

The text of a string literal is its contents, without quotes. This is why such literals are left
out: their texts would be read as other tokens, or as none.

* `Symbol.Printable`: a symbol is printed as a slot of its own;
* `Production.parse_printedBody`: a printed body is read as the body;
* `Document.Draft.addLines_printed`: the printed rules are read in their order;
* `Document.parse_display`: a grammar is read back.
-/

namespace Coscript

/-! ### Lines -/

namespace Line

variable {cs l r : List Char}

/-- Whether a character is not white, or a space: it may stand inside a line. -/
def isInline (c : Char) : Bool := c == ' ' || !CharClass.isWhite c

lemma isInline_of_not_isWhite {c : Char} (h : CharClass.isWhite c = false) : isInline c = true := by
  simp [isInline, h]

/-- Such characters end no line. -/
lemma not_mem_of_isInline (h : ∀ c ∈ l, isInline c = true) : '\n' ∉ l ∧ '\r' ∉ l :=
  ⟨fun hmem => absurd (h _ hmem) (by decide),
    fun hmem => absurd (h _ hmem) (by decide)⟩

lemma dropWhile_of_head? {f : Char → Bool} (h : ∀ c ∈ cs.head?, f c = false) :
    cs.dropWhile f = cs := by
  cases cs with
  | nil => rfl
  | cons c cs => simp [h c rfl]

/-- A text that neither begins nor ends with white space is left as it is. -/
lemma trim_self (hhead : ∀ c ∈ cs.head?, CharClass.isWhite c = false)
    (hlast : ∀ c ∈ cs.getLast?, CharClass.isWhite c = false) : trim cs = cs := by
  have hback : cs.reverse.dropWhile CharClass.isWhite = cs.reverse :=
    dropWhile_of_head? fun c hc => hlast c (by rwa [List.head?_reverse] at hc)
  rw [trim, trimEnd, dropWhile_of_head? hhead, hback, List.reverse_reverse]

lemma trim_cons {c : Char} (hc : CharClass.isWhite c = true) : trim (c :: cs) = trim cs := by
  rw [trim, trim, List.dropWhile_cons_of_pos hc]

lemma trim_append {c : Char} (hc : CharClass.isWhite c = true)
    (hhead : ∀ d ∈ cs.head?, CharClass.isWhite d = false) : trim (cs ++ [c]) = trim cs := by
  cases cs with
  | nil => rw [List.nil_append, trim_cons hc]
  | cons d cs =>
    have hd := Bool.eq_false_iff.mp (hhead d rfl)
    rw [trim, trim, List.cons_append, List.dropWhile_cons_of_neg hd, List.dropWhile_cons_of_neg hd,
      trimEnd, trimEnd, ← List.cons_append, List.reverse_append, List.reverse_singleton,
      List.singleton_append, List.dropWhile_cons_of_pos hc]

lemma splitArrow?_append (h : '-' ∉ l) : splitArrow? (l ++ '-' :: '>' :: r) = some (l, r) := by
  induction l with
  | nil => rfl
  | cons c l ih =>
    rw [List.mem_cons, not_or] at h
    rw [List.cons_append, splitArrow?.eq_def]
    split
    · next heq => cases heq
    · next heq =>
      rw [List.cons.injEq] at heq
      exact absurd heq.1.symm h.1
    · next heq =>
      cases heq
      rw [ih h.2]
      rfl

end Line

/-! ### Names -/

namespace Document

/-- Names are not white. -/
lemma isWhite_of_isName {cs : List Char} (h : isName cs = true) :
    ∀ c ∈ cs, CharClass.isWhite c = false := fun c hc =>
  Lexer.isWhite_of_continuesName (continuesName_of_isName h c hc)

end Document

/-! ### Symbols -/

namespace Symbol

/-- The type of the token that a symbol is printed as. -/
def printedType : Symbol → TokenType
  | terminal (.literal _ _) => .special
  | s => if s.display ∈ Lexer.keywords then .keyword else .identifier

/-- **A symbol is printed as one token**, which is a slot of its own. -/
structure Printable (isSymbol : String → Bool) (s : Symbol) : Prop where
  spelled : Lexer.Spelled .ruleBody s.printedType s.display.toList
  slot : ∀ t : Token, t.type = s.printedType → t.text = s.display →
    RuleBody.Slot (·.text = ")") isSymbol [t] [.symbol s]
  dark : ∀ c ∈ s.display.toList, CharClass.isWhite c = false

variable {isSymbol : String → Bool} {chars : List Char}

/-- A name is spelled as a word of rule bodies. -/
lemma spelled_of_isName {name : String} (h : Document.isName name.toList = true) :
    Lexer.Spelled .ruleBody (if name ∈ Lexer.keywords then .keyword else .identifier)
      name.toList := by
  obtain ⟨c, cs, hcs, hc, hrest⟩ := Document.isName_iff.mp h
  have hword : Lexer.Spelled .ruleBody _ (c :: cs) := .word hc hrest
  rwa [← hcs, String.ofList_toList] at hword

lemma isName_of_type {name : String} {t : Token}
    (h : t.type = if name ∈ Lexer.keywords then .keyword else .identifier) : t.IsName := by
  split at h
  · exact .inr h
  · exact .inl h

/-- **The symbols of documents are printable**, unless they are string literals. -/
theorem Written.printable {s : Symbol} (h : s.Written chars)
    (hstring : ∀ text, s ≠ .terminal (.literal .string text))
    (hname : ∀ a, s = .nonTerminal a →
      Document.isName a.toList = true ∧ isSymbol a = true) : s.Printable isSymbol := by
  cases h with
  | @tokenType type h =>
    have hnames : ∀ type ∈ TokenType.named, Document.isName type.name.toList = true := by
      decide
    refine ⟨spelled_of_isName (hnames type h), fun t htype htext => ?_,
      Document.isWhite_of_isName (hnames type h)⟩
    exact .tokenType (isName_of_type htype) (by rw [htext]; exact TokenType.ofName?_name h)
  | @literal contents x _ h =>
    have htype : x.type ≠ .string := fun htype => hstring x.text (by rw [htype])
    have hspells := (Lexer.spelled_of_tokenize h x List.mem_cons_self htype).spells
    have hdisplay : (Symbol.terminal (.literal x.type x.text)).display.toList =
        Lexer.backtick :: (x.text.toList ++ [Lexer.backtick]) := by
      change ("`" ++ x.text ++ "`").toList = _
      simp [Lexer.backtick]
    refine ⟨?_, fun t ht htext => ?_, ?_⟩
    · rw [hdisplay]
      refine .literal fun c hc => ⟨?_, ?_⟩
      all_goals
        rintro rfl
        exact absurd (hspells _ hc) (by decide)
    · have hquotes : RuleBody.Quotes t x.text := ⟨ht, by rw [htext, hdisplay]⟩
      exact RuleBody.Slot.literal (x := ⟨x.type, x.text, .start⟩) hquotes
        (Lexer.tokenize_text h List.mem_cons_self htype)
    · rw [hdisplay]
      intro c hc
      rcases List.mem_cons.mp hc with rfl | hc
      · decide
      · rcases List.mem_append.mp hc with hc | hc
        · exact Lexer.isWhite_of_spells (hspells c hc)
        · rw [List.mem_singleton.mp hc]
          decide
  | @name a h =>
    obtain ⟨ha, hsymbol⟩ := hname a rfl
    refine ⟨spelled_of_isName ha, fun t htype htext => ?_, Document.isWhite_of_isName ha⟩
    have hslot : RuleBody.Slot (·.text = ")") isSymbol [t] [.symbol (.nonTerminal t.text)] :=
      .symbol (isName_of_type htype) (by rw [htext]; exact h) (by rw [htext]; exact hsymbol)
    rwa [htext] at hslot

end Symbol

/-! ### Bodies -/

namespace RuleBody

variable {rule : String} {isSymbol : String → Bool}

/-- Where each slot lists one element, there is one choice. -/
lemma choices_singletons (es : List Element) : choices (es.map fun e => [e]) = [es] := by
  induction es with
  | nil => rfl
  | cons e es ih => simp [choices, ih]

/-- **Printed symbols with spaces before them are read as these symbols.** -/
theorem parse_spaced {ss : List Symbol} (h : ∀ s ∈ ss, s.Printable isSymbol) :
    parse rule (String.ofList (ss.flatMap fun s => ' ' :: s.display.toList)) isSymbol =
      .ok [ss.map .symbol] := by
  have hspelled : ∀ e ∈ ss.map fun s => (s.printedType, s.display.toList),
      Lexer.Spelled .ruleBody e.1 e.2 := by
    intro e he
    obtain ⟨s, hs, rfl⟩ := List.mem_map.mp he
    exact (h s hs).spelled
  obtain ⟨ts, hts, hforall⟩ := Lexer.exists_tokens_of_spaced hspelled .start
  rw [List.flatMap_map] at hts
  have htokens : Lexer.tokenize .ruleBody
      (String.ofList (ss.flatMap fun s => ' ' :: s.display.toList)) = .ok ts := by
    rw [← hts, Lexer.tokenize, Lexer.items, String.toList_ofList]
    rfl
  have hsplit : Split (·.text = ")") isSymbol ts (ss.map fun s => [.symbol s]) := by
    refine ⟨ts.map fun t => [t], (List.flatMap_singleton' ts).symm, ?_⟩
    rw [List.forall₂_map_left_iff] at hforall
    rw [List.forall₂_map_left_iff, List.forall₂_map_right_iff]
    refine List.Forall₂.flip ((List.forall₂_and_left ss ts).mpr ⟨h, hforall⟩ |>.imp ?_)
    rintro s t ⟨hs, htype, htext⟩
    exact hs.slot t htype (by rw [htext, String.ofList_toList])
  rw [parse_eq_ok]
  refine ⟨ts, _, htokens, slots_complete hsplit (lexed_of_tokenize htokens), ?_⟩
  rw [← choices_singletons, List.map_map]
  rfl

/-- An empty body is read as one. -/
lemma parse_empty : parse rule " ()" isSymbol = .ok [[.empty]] := by
  have htokens : Lexer.tokenize .ruleBody " ()" =
      .ok [⟨.punctuation, "(", ⟨1, 2⟩⟩, ⟨.punctuation, ")", ⟨1, 3⟩⟩] := by
    decide +kernel
  refine parse_eq_ok.mpr ⟨_, [[.empty]], htokens, ?_, rfl⟩
  rw [slots_cons rfl, slots]
  rfl

end RuleBody

namespace Production

/-- What is printed behind the arrow of a production. -/
def printedBody (p : Production) : List Char :=
  if p.body = [] then [' ', '(', ')'] else p.body.flatMap fun s => ' ' :: s.display.toList

lemma toList_display (p : Production) :
    p.display.toList = p.name.toList ++ ' ' :: '-' :: '>' :: p.printedBody := by
  obtain ⟨name, body⟩ := p
  cases body with
  | nil =>
    change (name ++ " -> ()").toList = _
    simp [printedBody]
  | cons s body =>
    change (name ++ " ->" ++ String.join ((s :: body).map fun s => " " ++ s.display)).toList = _
    simp [printedBody, String.toList_join, List.flatMap_map]

/-- **A printed body is read as the body.** -/
theorem parse_printedBody {isSymbol : String → Bool} {p : Production}
    (h : ∀ s ∈ p.body, s.Printable isSymbol) : ∃ es,
      RuleBody.parse p.name (String.ofList p.printedBody) isSymbol = .ok [es] ∧
        ofElements p.name es = p := by
  unfold printedBody
  split
  · next hbody =>
    refine ⟨[.empty], RuleBody.parse_empty, ?_⟩
    cases p
    cases hbody
    rfl
  · exact ⟨p.elements, RuleBody.parse_spaced h, p.ofElements_elements⟩

end Production

/-! ### Rules -/

namespace Production

/-- A production has a name, and its symbols are printable. -/
structure Printable (isSymbol : String → Bool) (p : Production) : Prop where
  name : Document.isName p.name.toList = true
  body : ∀ s ∈ p.body, s.Printable isSymbol

variable {isSymbol : String → Bool} {p : Production}

lemma printedBody_ne_nil (p : Production) : p.printedBody ≠ [] := by
  unfold printedBody
  split
  · simp
  · next hne =>
    obtain ⟨s, ss, hss⟩ := List.exists_cons_of_ne_nil hne
    simp [hss]

lemma Printable.printedBody (h : p.Printable isSymbol) :
    ∀ c ∈ p.printedBody, Line.isInline c = true := by
  unfold Production.printedBody
  split
  · exact List.all_eq_true.mp (by decide)
  · intro c hc
    obtain ⟨s, hs, hc⟩ := List.mem_flatMap.mp hc
    rcases List.mem_cons.mp hc with rfl | hc
    · rfl
    · exact Line.isInline_of_not_isWhite ((h.body s hs).dark c hc)

/-- A printed body ends with a symbol. -/
lemma Printable.getLast?_printedBody (h : p.Printable isSymbol) :
    ∀ c ∈ p.printedBody.getLast?, CharClass.isWhite c = false := by
  unfold Production.printedBody
  split
  · rintro c ⟨⟩
    decide
  · next hne =>
    obtain ⟨ss, s, hss⟩ := List.eq_nil_or_concat p.body |>.resolve_left hne
    have hs := h.body s (by rw [hss]; simp)
    obtain ⟨c, cs, hspan, -⟩ := hs.spelled.scan (p := .start) Lexer.separated_nil
    rw [hss, List.concat_eq_append, List.flatMap_append, List.flatMap_singleton]
    intro d hd
    have hne : s.display.toList ≠ [] := by simp [hspan]
    rw [List.getLast?_append_of_ne_nil _ (by simp), List.getLast?_cons_of_ne_nil hne] at hd
    exact hs.dark d (List.mem_of_getLast? hd)

end Production

/-! ### Documents -/

namespace Document

variable {d : Draft} {number : Nat} {name : String} {body : List Char}

/-- Nothing that a name starts with begins a comment, a directive or an alternative. -/
lemma after?_of_isName (h : isName name.toList = true) (cs : List Char) :
    Line.after? "//".toList (name.toList ++ cs) = none ∧
      Line.after? "%start".toList (name.toList ++ cs) = none ∧
        Line.after? ['|'] (name.toList ++ cs) = none := by
  obtain ⟨c, rest, hname, hc, -⟩ := isName_iff.mp h
  have hne : ∀ {d}, d ∈ Lexer.digits ++ Lexer.heads → d ≠ c := fun hd =>
    (Lexer.ne_of_startsName hc hd).symm
  have hslash : "//".toList = ['/', '/'] := by decide
  have hstart : "%start".toList = ['%', 's', 't', 'a', 'r', 't'] := by decide
  rw [hname, hslash, hstart]
  exact ⟨if_neg (hne (by decide)), if_neg (hne (by decide)), if_neg (hne (by decide))⟩

lemma ne_nil_of_isName (h : isName name.toList = true) : name.toList ≠ [] := by
  obtain ⟨c, rest, hname, -, -⟩ := isName_iff.mp h
  simp [hname]

/-- A name stays where a space beside it is trimmed away. -/
lemma trim_of_isName (h : isName name.toList = true) :
    Line.trim (' ' :: name.toList) = name.toList ∧
      Line.trim (name.toList ++ [' ']) = name.toList := by
  have hhead : ∀ c ∈ name.toList.head?, CharClass.isWhite c = false := fun c hc =>
    isWhite_of_isName h c (List.mem_of_mem_head? hc)
  have hself : Line.trim name.toList = name.toList := Line.trim_self hhead fun c hc =>
    isWhite_of_isName h c (List.mem_of_getLast? hc)
  rw [Line.trim_cons Lexer.isWhite_space, Line.trim_append Lexer.isWhite_space hhead]
  exact ⟨hself, hself⟩

/-- A rule is read from its line. -/
lemma addLine_rule (hname : isName name.toList = true) (hne : body ≠ [])
    (hlast : ∀ c ∈ body.getLast?, CharClass.isWhite c = false) :
    d.addLine number (name.toList ++ ' ' :: '-' :: '>' :: body) =
      .ok { d with rules := (name, body) :: d.rules } := by
  have hwhole : Line.trim (name.toList ++ ' ' :: '-' :: '>' :: body) =
      name.toList ++ ' ' :: '-' :: '>' :: body := by
    refine Line.trim_self (fun c hc => ?_) fun c hc => ?_
    · rw [List.head?_append_of_ne_nil _ (ne_nil_of_isName hname)] at hc
      exact isWhite_of_isName hname c (List.mem_of_mem_head? hc)
    · rw [List.getLast?_append_of_ne_nil _ (by simp), List.getLast?_cons_of_ne_nil (by simp),
        List.getLast?_cons_of_ne_nil (by simp), List.getLast?_cons_of_ne_nil hne] at hc
      exact hlast c hc
  -- No arrow comes before the printed one, since names do not hold its first character.
  have hminus : '-' ∉ name.toList ++ [' '] := by
    have hout : Lexer.continuesName .ruleBody '-' = false := by decide
    intro hmem
    rcases List.mem_append.mp hmem with hmem | hmem
    · rw [continuesName_of_isName hname _ hmem] at hout
      cases hout
    · exact absurd hmem (by decide)
  have hsplit : Line.splitArrow? (name.toList ++ ' ' :: '-' :: '>' :: body) =
      some (name.toList ++ [' '], body) := by
    rw [← Line.splitArrow?_append hminus, List.append_assoc]
    rfl
  obtain ⟨hcomment, hstart, hbar⟩ := after?_of_isName hname (' ' :: '-' :: '>' :: body)
  have hside := (trim_of_isName hname).2
  unfold Draft.addLine
  simp only [hwhole, hcomment, hstart, hbar, hsplit, hside, hname, if_true,
    String.ofList_toList]
  rw [if_neg (by simp)]

/-- The start symbol is read from its line. -/
lemma addLine_start (hname : isName name.toList = true) :
    d.addLine number ("%start ".toList ++ name.toList) = .ok { d with start? := some name } := by
  have hword : "%start ".toList = ['%', 's', 't', 'a', 'r', 't', ' '] := by decide
  have hwhole : Line.trim ("%start ".toList ++ name.toList) = "%start ".toList ++ name.toList := by
    refine Line.trim_self (fun c hc => ?_) fun c hc => ?_
    · rw [hword] at hc
      cases hc
      decide
    · rw [List.getLast?_append_of_ne_nil _ (ne_nil_of_isName hname)] at hc
      exact isWhite_of_isName hname c (List.mem_of_getLast? hc)
  have hslash : "//".toList = ['/', '/'] := by decide
  have hcomment : Line.after? "//".toList ("%start ".toList ++ name.toList) = none := by
    rw [hword, hslash]
    rfl
  have hstart : Line.after? "%start".toList ("%start ".toList ++ name.toList) =
      some (' ' :: name.toList) := by
    rw [hword, show "%start".toList = ['%', 's', 't', 'a', 'r', 't'] by decide]
    rfl
  have hside := (trim_of_isName hname).1
  unfold Draft.addLine
  simp only [hwhole, hcomment, hstart, hside, hname, if_true, String.ofList_toList]
  rw [if_neg (by simp [hword])]

variable {isSymbol : String → Bool} {ps : List Production}

/-- **Printed rules are read in their order.** -/
theorem Draft.addLines_printed (h : ∀ p ∈ ps, p.Printable isSymbol) (d : Draft) (number : Nat) :
    d.addLines ((ps.map fun p => p.display.toList).zipIdx number) =
      .ok { d with rules := (ps.map fun p => (p.name, p.printedBody)).reverse ++ d.rules } := by
  induction ps generalizing d number with
  | nil => rfl
  | cons p ps ih =>
    obtain ⟨hp, hps⟩ := List.forall_mem_cons.mp h
    rw [List.map_cons, List.zipIdx_cons, Draft.addLines, p.toList_display,
      addLine_rule hp.name p.printedBody_ne_nil hp.getLast?_printedBody]
    refine (ih hps _ _).trans ?_
    rw [List.map_cons, List.reverse_cons, List.append_assoc]
    rfl

/-- The productions of printed rules are these productions. -/
lemma productions_printed (h : ∀ p ∈ ps, p.Printable isSymbol) :
    productions isSymbol (ps.map fun p => (p.name, p.printedBody)) = .ok ps := by
  induction ps with
  | nil => rfl
  | cons p ps ih =>
    obtain ⟨hp, hps⟩ := List.forall_mem_cons.mp h
    obtain ⟨es, hes, hof⟩ := Production.parse_printedBody hp.body
    rw [List.map_cons, productions, hes, ih hps]
    change Except.ok ([es].map (Production.ofElements p.name) ++ ps) = _
    rw [List.map_singleton, hof, List.singleton_append]

end Document

namespace Grammar

/-- A grammar is built from its start symbol and its productions. -/
lemma build_self (g : Grammar) : build g.start g.productions.toList = .ok g := by
  obtain ⟨start, productions, index, terminals, rfl, rfl, hdefined, hstart⟩ := g
  unfold build
  dsimp only
  split
  · next heq =>
    rw [Array.toArray_toList, hdefined] at heq
    cases heq
  · rw [dif_pos (by rwa [Array.toArray_toList])]

/-- The lines of the text of a grammar. -/
def printedLines (g : Grammar) : List (List Char) :=
  ("%start ".toList ++ g.start.toList) :: g.productions.toList.map fun p => p.display.toList

lemma toList_display (g : Grammar) :
    g.display.toList = g.printedLines.flatMap fun l => l ++ ['\n'] := by
  have hend : "\n".toList = ['\n'] := by decide
  change ("%start " ++ g.start ++ "\n" ++
    String.join (g.productions.toList.map fun p => p.display ++ "\n")).toList = _
  simp only [printedLines, String.toList_append, String.toList_join, List.flatMap_cons,
    List.flatMap_map, hend]

/-- The text of a grammar with printable productions is read line by line. -/
lemma all_display {isSymbol : String → Bool} {g : Grammar}
    (hstart : Document.isName g.start.toList = true)
    (h : ∀ p ∈ g.productions.toList, p.Printable isSymbol) :
    Line.all g.display.toList = g.printedLines := by
  have hname : ∀ {name : String}, Document.isName name.toList = true →
      ∀ c ∈ name.toList, Line.isInline c = true := fun hn c hc =>
    Line.isInline_of_not_isWhite (Document.isWhite_of_isName hn c hc)
  have hdirective : ∀ c ∈ "%start ".toList, Line.isInline c = true :=
    List.all_eq_true.mp (by decide)
  have harrow : ∀ c ∈ [' ', '-', '>'], Line.isInline c = true :=
    List.all_eq_true.mp (by decide)
  rw [toList_display, Line.all_flatMap]
  refine List.forall_mem_cons.mpr ⟨Line.not_mem_of_isInline ?_, fun l hl => ?_⟩
  · exact List.forall_mem_append.mpr ⟨hdirective, hname hstart⟩
  · obtain ⟨p, hp, rfl⟩ := List.mem_map.mp hl
    refine Line.not_mem_of_isInline ?_
    rw [p.toList_display]
    exact List.forall_mem_append.mpr ⟨hname (h p hp).name,
      List.forall_mem_append.mpr ⟨harrow, (h p hp).printedBody⟩⟩

end Grammar

namespace Document

/-- The names and bodies of the printed rules of a grammar. -/
def printedRules (g : Grammar) : List (String × List Char) :=
  g.productions.toList.map fun p => (p.name, p.printedBody)

/-- The names that a printed grammar has rules for. -/
def printedNames (g : Grammar) (name : String) : Bool := (printedRules g).any fun r => r.1 = name

/-- A grammar with printable productions is read back. -/
lemma parse_display_of_printable {g : Grammar} (hstart : isName g.start.toList = true)
    (h : ∀ p ∈ g.productions.toList, p.Printable (printedNames g)) : parse g.display = .ok g := by
  have hdraft : Draft.addLines ⟨none, []⟩ ((Line.all g.display.toList).zipIdx 1) =
      .ok ⟨some g.start, (printedRules g).reverse⟩ := by
    rw [Grammar.all_display hstart h, Grammar.printedLines, List.zipIdx_cons, Draft.addLines,
      addLine_start hstart]
    refine (Draft.addLines_printed h _ _).trans ?_
    rw [List.append_nil]
    rfl
  have hrules : (printedRules g).reverse.reverse = printedRules g := List.reverse_reverse _
  unfold parse
  rw [hdraft]
  change (productions (fun s => (printedRules g).reverse.reverse.any fun r => r.1 = s)
    (printedRules g).reverse.reverse >>= Grammar.build g.start) = _
  rw [hrules]
  exact bind_eq_ok_iff.mpr ⟨_, productions_printed h, g.build_self⟩

/-- **A grammar of a document is read back from its text**, if none of its terminals is a string
literal. -/
theorem parse_display {text : String} {g : Grammar} (h : parse text = .ok g)
    (hstring : ∀ s, .literal .string s ∉ g.usedTerminals) : parse g.display = .ok g := by
  have hwritten := parse_written h
  have hplace : ∀ p ∈ g.productions.toList, ∃ i, g.production? i = some p := fun p hp => by
    simpa [Grammar.production?] using List.mem_iff_getElem?.mp hp
  refine parse_display_of_printable (hwritten.names _ g.start_mem_names) fun p hp => ?_
  obtain ⟨i, hi⟩ := hplace p hp
  refine ⟨hwritten.names _ (Grammar.mem_names_iff.mpr ⟨i, p, hi, rfl⟩), fun s hs => ?_⟩
  refine (hwritten.symbols p (Array.mem_toList_iff.mp hp) s hs).printable ?_ ?_
  · rintro text rfl
    exact hstring text (Grammar.mem_usedTerminals_iff.mpr ⟨i, p, hi, hs⟩)
  · rintro a rfl
    have ha := Grammar.mem_names_of_mem_body hi hs
    obtain ⟨j, q, hq, hname⟩ := Grammar.mem_names_iff.mp ha
    refine ⟨hwritten.names a ha, List.any_eq_true.mpr ⟨(q.name, q.printedBody), ?_, by simpa⟩⟩
    exact List.mem_map.mpr ⟨q, Array.mem_toList_iff.mpr (Array.mem_of_getElem? hq), rfl⟩

/-- Names may be keywords, end in primes, or be those of token types. -/
theorem parse_display_shadowed : ∃ g,
    parse "%start Float\nFloat -> if' Integer|Float `||`\n  | ()\nif' -> while\nwhile -> `-`\n" = .ok g ∧
      (∀ s, .literal .string s ∉ g.usedTerminals) ∧
      g.display = "%start Float\nFloat -> if' Integer `||`\nFloat -> if' Float `||`\n" ++
        "Float -> ()\nif' -> while\nwhile -> `-`\n" ∧
      parse g.display = .ok g := by
  obtain ⟨g, hg, hproperty⟩ := exists_of_any
    "%start Float\nFloat -> if' Integer|Float `||`\n  | ()\nif' -> while\nwhile -> `-`\n"
    (fun g => (g.usedTerminals.all fun t => t.tokenType ≠ .string) &&
      g.display = "%start Float\nFloat -> if' Integer `||`\nFloat -> if' Float `||`\n" ++
        "Float -> ()\nif' -> while\nwhile -> `-`\n") (by decide +kernel)
  obtain ⟨htypes, hdisplay⟩ := Bool.and_eq_true_iff.mp hproperty
  have hstring : ∀ s, .literal .string s ∉ g.usedTerminals := fun s hs => by
    simpa [Terminal.tokenType] using List.all_eq_true.mp htypes _ hs
  exact ⟨g, hg, hstring, of_decide_eq_true hdisplay, parse_display hg hstring⟩

end Document

end Coscript
