import Coscript.Proofs.Documents
import Coscript.Proofs.RuleSlots

/-!
# What documents can say

Whatever an accepted document looks like, the names of its grammar are names, and the terminals are
the named token types and literals. A literal is the one token that some characters of the document
are cut into, and a name that is used is not the name of a token type.

* `Symbol.Written`, `Grammar.Written`: symbols and grammars of documents;
* `Document.parse_written`: the grammar of a document is one.
-/

namespace Coscript

/-- A symbol that can be written with some characters. -/
inductive Symbol.Written (chars : List Char) : Symbol → Prop
  | tokenType {type : TokenType} (h : type ∈ TokenType.named) : Written chars (.terminal (.any type))
  | literal {contents : String} {x : Token} (hcontents : contents.toList ⊆ chars)
      (h : Lexer.tokenize .script contents = .ok [x]) :
      Written chars (.terminal (.literal x.type x.text))
  | name {a : String} (h : TokenType.ofName? a = none) : Written chars (.nonTerminal a)

lemma Symbol.Written.mono {chars more : List Char} {s : Symbol} (h : s.Written chars)
    (hsub : chars ⊆ more) : s.Written more := by
  cases h with
  | tokenType h => exact .tokenType h
  | literal hcontents h => exact .literal (List.Subset.trans hcontents hsub) h
  | name h => exact .name h

/-- **A grammar that can be written with some characters.** -/
structure Grammar.Written (chars : List Char) (g : Grammar) : Prop where
  names : ∀ a ∈ g.names, Document.isName a.toList = true
  symbols : ∀ p ∈ g.productions, ∀ s ∈ p.body, s.Written chars

/-! ### Names -/

namespace Document

lemma isName_iff {cs : List Char} : isName cs = true ↔ ∃ c rest, cs = c :: rest ∧
    Lexer.startsName c = true ∧ ∀ d ∈ rest, Lexer.continuesName .ruleBody d = true := by
  cases cs with
  | nil => simp [isName]
  | cons c cs => simp [isName]

lemma continuesName_of_isName {cs : List Char} (h : isName cs = true) :
    ∀ c ∈ cs, Lexer.continuesName .ruleBody c = true := by
  obtain ⟨c, rest, rfl, hc, hrest⟩ := isName_iff.mp h
  exact List.forall_mem_cons.mpr ⟨Lexer.continuesName_of_startsName hc, hrest⟩

end Document

/-! ### Parts of lines -/

namespace Line

variable {cs l r : List Char}

lemma subset_of_mem_all (h : l ∈ all cs) : l ⊆ cs := by
  fun_induction all cs generalizing l with
  | case1 => cases h
  | case2 cs ih =>
    rcases List.mem_cons.mp h with rfl | h
    · exact List.nil_subset _
    · exact fun c hc => List.mem_cons_of_mem _ (List.mem_cons_of_mem _ (ih h hc))
  | case3 cs _ ih =>
    rcases List.mem_cons.mp h with rfl | h
    · exact List.nil_subset _
    · exact fun c hc => List.mem_cons_of_mem _ (ih h hc)
  | case4 c cs _ _ hnone ih =>
    obtain rfl := List.mem_singleton.mp h
    exact List.cons_subset_cons c (List.nil_subset cs)
  | case5 c cs _ _ l' ls hsome ih =>
    rw [hsome] at ih
    rcases List.mem_cons.mp h with rfl | h
    · exact List.cons_subset_cons c (ih List.mem_cons_self)
    · exact fun d hd => List.mem_cons_of_mem c (ih (List.mem_cons_of_mem l' h) hd)

lemma trim_subset (cs : List Char) : trim cs ⊆ cs := by
  intro c hc
  rw [trim, trimEnd, List.mem_reverse] at hc
  have hc := (List.dropWhile_suffix _).subset hc
  rw [List.mem_reverse] at hc
  exact (List.dropWhile_suffix _).subset hc

lemma after?_subset {ps : List Char} (h : after? ps cs = some r) : r ⊆ cs := by
  fun_induction after? ps cs with
  | case1 =>
    cases h
    exact List.Subset.refl _
  | case2 => cases h
  | case3 ps c cs ih => exact fun d hd => List.mem_cons_of_mem c (ih h hd)
  | case4 => cases h

lemma splitArrow?_subset (h : splitArrow? cs = some (l, r)) : r ⊆ cs := by
  fun_induction splitArrow? cs generalizing l with
  | case1 => cases h
  | case2 cs =>
    cases h
    exact fun d hd => List.mem_cons_of_mem _ (List.mem_cons_of_mem _ hd)
  | case3 c cs _ ih =>
    obtain ⟨⟨l', r'⟩, hsplit, heq⟩ := Option.map_eq_some_iff.mp h
    cases heq
    exact fun d hd => List.mem_cons_of_mem c (ih hsplit hd)

end Line

/-! ### Lines -/

namespace Document

variable {chars : List Char}

/-- The rules of a draft have names, and bodies with some characters. -/
def Draft.Written (chars : List Char) (d : Draft) : Prop :=
  ∀ r ∈ d.rules, isName r.1.toList = true ∧ r.2 ⊆ chars

lemma Draft.Written.add {d : Draft} (h : d.Written chars) {name : String} {body : List Char}
    (hname : isName name.toList = true) (hbody : body ⊆ chars) :
    Draft.Written chars { d with rules := (name, body) :: d.rules } :=
  List.forall_mem_cons.mpr ⟨⟨hname, hbody⟩, h⟩

lemma Draft.Written.addLine {d d' : Draft} (hd : d.Written chars) {number : Nat} {line : List Char}
    (hline : line ⊆ chars) (h : d.addLine number line = .ok d') : d'.Written chars := by
  have htrim := List.Subset.trans (Line.trim_subset line) hline
  unfold Draft.addLine at h
  dsimp only at h
  split at h
  · cases h
    exact hd
  · split at h
    · split at h
      · cases h
        exact hd
      · cases h
    · next body _ hafter =>
      split at h
      · cases h
      · next name _ rules hrules =>
        cases h
        exact hd.add (hd _ (hrules ▸ List.mem_cons_self)).1
          (List.Subset.trans (Line.after?_subset hafter) htrim)
    · next name body _ _ hsplit =>
      split at h
      · next hname =>
        cases h
        exact hd.add (by rwa [String.toList_ofList])
          (List.Subset.trans (Line.splitArrow?_subset hsplit) htrim)
      · cases h
    · cases h

lemma Draft.Written.addLines {d d' : Draft} {lines : List (List Char × Nat)}
    (hd : d.Written chars) (hlines : ∀ l ∈ lines, l.1 ⊆ chars)
    (h : d.addLines lines = .ok d') : d'.Written chars := by
  induction lines generalizing d with
  | nil =>
    cases h
    exact hd
  | cons l lines ih =>
    obtain ⟨d₁, hd₁, h⟩ := bind_eq_ok_iff.mp h
    obtain ⟨hl, hlines⟩ := List.forall_mem_cons.mp hlines
    exact ih (hd.addLine hl hd₁) hlines h

end Document

/-! ### Rule bodies -/

/-- A token is what some span of its text says. -/
lemma Lexer.exists_span {mode : Mode} {source : String} {ts : List Token}
    (h : tokenize mode source = .ok ts) {t : Token} (ht : t ∈ ts) :
    ∃ span rest, span ⊆ source.toList ∧ TokenOf mode span rest t := by
  obtain ⟨_, hmem, rfl⟩ := exists_of_mem_mapM h ht
  obtain ⟨l, hl, houtcome⟩ := List.mem_map.mp hmem
  obtain ⟨earlier, later, hls⟩ := List.append_of_mem hl
  obtain ⟨rest, hsource, hof, -⟩ :=
    (segmentation_lexemes mode [] source.toList).token earlier l later hls t houtcome
  refine ⟨l.span, rest, ?_, hof⟩
  rw [hsource]
  exact fun c hc => List.mem_append_left _ (List.mem_append_right _ hc)

namespace RuleBody

variable {rule text : String} {isSymbol : String → Bool} {closes : Token → Prop} {chars : List Char}

lemma mem_named {name : String} {type : TokenType} (h : TokenType.ofName? name = some type) :
    type ∈ TokenType.named := List.mem_of_find?_eq_some h

lemma Alternation.named {ts : List Token} {types : List TokenType} (h : Alternation ts types) :
    ∀ type ∈ types, type ∈ TokenType.named := by
  induction h with
  | last _ htype => exact List.forall_mem_singleton.mpr (mem_named htype)
  | more _ htype _ _ ih => exact List.forall_mem_cons.mpr ⟨mem_named htype, ih⟩

/-- What a slot lists can be written with the characters of its marks. -/
lemma Slot.written {ts : List Token} {es : List Element} (h : Slot closes isSymbol ts es)
    (hts : ∀ t ∈ ts, t.type = .special → t.text.toList ⊆ chars) {s : Symbol}
    (hs : .symbol s ∈ es) : s.Written chars := by
  cases h with
  | @literal t x contents hquotes hcontents =>
    cases List.mem_singleton.mp hs
    refine .literal (fun c hc => hts t List.mem_cons_self hquotes.1 ?_) hcontents
    rw [hquotes.2]
    exact List.mem_cons_of_mem _ (List.mem_append_left _ hc)
  | tokenType _ htype =>
    cases List.mem_singleton.mp hs
    exact .tokenType (mem_named htype)
  | symbol _ htype _ =>
    cases List.mem_singleton.mp hs
    exact .name htype
  | alternation h _ =>
    obtain ⟨type, htype, heq⟩ := List.mem_map.mp hs
    cases heq
    exact .tokenType (h.named type htype)
  | empty => cases List.mem_singleton.mp hs

lemma Split.written {tokens : List Token} {slots' : List (List Element)}
    (h : Split closes isSymbol tokens slots')
    (htokens : ∀ t ∈ tokens, t.type = .special → t.text.toList ⊆ chars) :
    ∀ slot ∈ slots', ∀ s, .symbol s ∈ slot → s.Written chars := by
  obtain ⟨groups, rfl, h⟩ := h
  induction h with
  | nil => simp
  | cons hslot _ ih =>
    rw [List.flatten_cons] at htokens
    exact List.forall_mem_cons.mpr
      ⟨fun s => hslot.written fun t ht => htokens t (List.mem_append_left _ ht),
        ih fun t ht => htokens t (List.mem_append_right _ ht)⟩

/-- The symbols of a body can be written with its characters. -/
lemma written_of_parse {bodies : List (List Element)} (h : parse rule text isSymbol = .ok bodies)
    {es : List Element} (hes : es ∈ bodies) {s : Symbol} (hs : .symbol s ∈ es) :
    s.Written text.toList := by
  obtain ⟨tokens, slots', htokens, hslots, rfl⟩ := parse_eq_ok.mp h
  obtain ⟨slot, hslot, hmem⟩ := exists_slot_of_mem_choices hes _ hs
  refine (slots_sound (lexed_of_tokenize htokens) hslots).written (fun t ht htype => ?_)
    slot hslot s hmem
  obtain ⟨span, rest, hspan, hof⟩ := Lexer.exists_span htokens ht
  rwa [hof.text (by simp [htype])]

end RuleBody

namespace Document

/-- **The grammar of a document can be written with its characters.** -/
theorem parse_written {text : String} {g : Grammar} (h : parse text = .ok g) :
    g.Written text.toList := by
  obtain ⟨d, hd, h⟩ := bind_eq_ok_iff.mp h
  have hdraft : d.Written text.toList := by
    refine Draft.Written.addLines (d := ⟨none, []⟩) (by simp [Draft.Written]) (fun l hl => ?_) hd
    exact Line.subset_of_mem_all (List.fst_mem_of_mem_zipIdx hl)
  split at h
  · cases h
  · obtain ⟨ps, hps, h⟩ := bind_eq_ok_iff.mp h
    have hrule : ∀ p ∈ g.productions, ∃ rule ∈ d.rules, ∃ bodies,
        RuleBody.parse rule.1 (String.ofList rule.2) (fun s => d.rules.reverse.any fun r => r.1 = s) =
          .ok bodies ∧ ∃ es ∈ bodies, p = .ofElements rule.1 es := by
      intro p hp
      rw [Grammar.productions_of_build h, List.mem_toArray] at hp
      obtain ⟨rule, hrule, hbody⟩ := exists_rule_of_mem hps hp
      exact ⟨rule, List.mem_reverse.mp hrule, hbody⟩
    constructor
    · intro a ha
      obtain ⟨i, p, hp, rfl⟩ := Grammar.mem_names_iff.mp ha
      obtain ⟨rule, hrule, bodies, -, es, -, rfl⟩ := hrule p (Array.mem_of_getElem? hp)
      exact (hdraft rule hrule).1
    · intro p hp s hs
      obtain ⟨rule, hrule, bodies, hbodies, es, hes, rfl⟩ := hrule p hp
      have helement := Production.symbol_mem_of_mem_body hs
      refine (RuleBody.written_of_parse hbodies hes helement).mono ?_
      rw [String.toList_ofList]
      exact (hdraft rule hrule).2

/-- What an evaluation says about the grammar of a document. -/
lemma exists_of_any (text : String) (property : Grammar → Bool)
    (h : (parse text).toOption.any property = true) :
    ∃ g, parse text = .ok g ∧ property g = true := by
  cases hparse : parse text with
  | error e =>
    rw [hparse] at h
    cases h
  | ok g =>
    rw [hparse] at h
    exact ⟨g, rfl, h⟩

end Document

end Coscript
