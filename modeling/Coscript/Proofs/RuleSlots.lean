import Coscript.Grammar.RuleBody
import Coscript.Proofs.Segmentation
import Mathlib.Data.List.Sort

/-!
# What rule bodies say

The tokens of a rule body are a sequence of slots, written one after the other: literals between
backticks, names of token types and symbols, alternations of names of token types, and the empty
element between parentheses. The body is read just if its tokens can be split into slots, and then
there is one rule for each choice of one element per slot.

The parenthesis that closes an empty element is recognised by its text alone. A string literal may
have that text, and so the quoted parenthesis in a body `( ")"` closes the empty element as well.
Bodies without such a literal are read as they should be.

* `RuleBody.Slot`, `RuleBody.Alternation`: the slots and what they list;
* `RuleBody.InOrder`: all choices in lexicographic order;
* `RuleBody.parse_iff_slots`: which bodies are read, and to what;
* `RuleBody.parse_quoted_parenthesis`: a body that is read though it should not be.
-/

namespace Coscript

/-- A name: an identifier or a keyword. -/
def Token.IsName (t : Token) : Prop := t.type = .identifier ∨ t.type = .keyword

namespace RuleBody

/-! ### Slots -/

/-- A token is a literal between backticks. -/
def Quotes (t : Token) (contents : String) : Prop :=
  t.type = .special ∧ t.text.toList = Lexer.backtick :: (contents.toList ++ [Lexer.backtick])

/-- Names of token types with bars between them, and the types. -/
inductive Alternation : List Token → List TokenType → Prop
  | last {t : Token} {type : TokenType} (hname : t.IsName)
      (htype : TokenType.ofName? t.text = some type) : Alternation [t] [type]
  | more {t bar : Token} {ts : List Token} {type : TokenType} {types : List TokenType}
      (hname : t.IsName) (htype : TokenType.ofName? t.text = some type)
      (hbar : isBar bar = true) (h : Alternation ts types) :
      Alternation (t :: bar :: ts) (type :: types)

/-- **The tokens of a slot, and the elements that it lists**, where `closes` says which tokens close
an empty element. -/
inductive Slot (closes : Token → Prop) (isSymbol : String → Bool) :
    List Token → List Element → Prop
  | literal {t x : Token} {contents : String} (hquotes : Quotes t contents)
      (hcontents : Lexer.tokenize .script contents = .ok [x]) :
      Slot closes isSymbol [t] [.terminal (.literal x.type x.text)]
  | tokenType {t : Token} {type : TokenType} (hname : t.IsName)
      (htype : TokenType.ofName? t.text = some type) :
      Slot closes isSymbol [t] [.terminal (.any type)]
  | symbol {t : Token} (hname : t.IsName) (htype : TokenType.ofName? t.text = none)
      (hsymbol : isSymbol t.text = true) : Slot closes isSymbol [t] [.nonTerminal t.text]
  | alternation {ts : List Token} {types : List TokenType} (h : Alternation ts types)
      (hlength : 2 ≤ types.length) :
      Slot closes isSymbol ts (types.map fun type => .terminal (.any type))
  | empty {l r : Token} (hl : l.type = .punctuation ∧ l.text = "(") (hr : closes r) :
      Slot closes isSymbol [l, r] [.empty]

/-- Tokens are split into slots. -/
def Split (closes : Token → Prop) (isSymbol : String → Bool) (tokens : List Token)
    (slots : List (List Element)) : Prop :=
  ∃ groups : List (List Token), tokens = groups.flatten ∧
    List.Forall₂ (Slot closes isSymbol) groups slots

/-! ### Choices -/

/-- The elements at some places of some slots. -/
def pick : List (List Element) → List Nat → List Element
  | slot :: slots, i :: places => slot[i]?.toList ++ pick slots places
  | _, _ => []

/-- **All choices of one element per slot, in lexicographic order** of their places. -/
def InOrder (slots : List (List Element)) (choices : List (List Element)) : Prop :=
  ∃ places : List (List Nat), places.Pairwise (· < ·) ∧
    (∀ is, is ∈ places ↔ List.Forall₂ (fun i slot => i < slot.length) is slots) ∧
    choices = places.map (pick slots)

/-- The places of all choices. -/
def allPlaces : List (List Element) → List (List Nat)
  | [] => [[]]
  | slot :: slots => (List.range slot.length).flatMap fun i => (allPlaces slots).map (i :: ·)

lemma pairwise_allPlaces (slots : List (List Element)) : (allPlaces slots).Pairwise (· < ·) := by
  induction slots with
  | nil => simp [allPlaces]
  | cons slot slots ih =>
    rw [allPlaces, List.pairwise_flatMap]
    constructor
    · intro i _
      exact List.pairwise_map.mpr (ih.imp fun h => List.cons_lt_cons_iff.mpr (.inr ⟨rfl, h⟩))
    · refine List.pairwise_lt_range.imp fun hij is his js hjs => ?_
      obtain ⟨is', -, rfl⟩ := List.mem_map.mp his
      obtain ⟨js', -, rfl⟩ := List.mem_map.mp hjs
      exact List.cons_lt_cons_iff.mpr (.inl hij)

lemma mem_allPlaces {slots : List (List Element)} {is : List Nat} :
    is ∈ allPlaces slots ↔ List.Forall₂ (fun i slot => i < slot.length) is slots := by
  induction slots generalizing is with
  | nil => simp [allPlaces]
  | cons slot slots ih =>
    rw [allPlaces, List.mem_flatMap]
    constructor
    · rintro ⟨i, hi, h⟩
      obtain ⟨is', his, rfl⟩ := List.mem_map.mp h
      exact .cons (List.mem_range.mp hi) (ih.mp his)
    · rintro (_ | ⟨hi, his⟩)
      exact ⟨_, List.mem_range.mpr hi, List.mem_map_of_mem (ih.mpr his)⟩

/-- A list is what stands at its places. -/
lemma flatMap_range_getElem? {α : Type} (l : List α) :
    (List.range l.length).flatMap (fun i => l[i]?.toList) = l := by
  induction l with
  | nil => rfl
  | cons a l ih =>
    rw [List.length_cons, List.range_succ_eq_map, List.flatMap_cons, List.flatMap_map]
    simpa using ih

lemma choices_eq_map (slots : List (List Element)) :
    choices slots = (allPlaces slots).map (pick slots) := by
  induction slots with
  | nil => rfl
  | cons slot slots ih =>
    rw [choices, allPlaces, List.map_flatMap, ih]
    conv_lhs => rw [← flatMap_range_getElem? slot]
    rw [List.flatMap_assoc]
    refine List.flatMap_congr fun i hi => ?_
    rw [List.getElem?_eq_getElem (List.mem_range.mp hi), Option.toList_some, List.flatMap_singleton,
      List.map_map, List.map_map]
    refine List.map_congr_left fun is _ => ?_
    simp [pick, List.getElem?_eq_getElem (List.mem_range.mp hi)]

/-- The choices are listed in their order, and in no other. -/
lemma inOrder_iff {slots bodies : List (List Element)} :
    InOrder slots bodies ↔ bodies = choices slots := by
  constructor
  · rintro ⟨places, hpairwise, hmem, rfl⟩
    have hplaces : places = allPlaces slots :=
      hpairwise.eq_of_mem_iff (pairwise_allPlaces slots) fun is =>
        (hmem is).trans mem_allPlaces.symm
    rw [hplaces, choices_eq_map]
  · rintro rfl
    exact ⟨allPlaces slots, pairwise_allPlaces slots, fun is => mem_allPlaces, choices_eq_map slots⟩

/-! ### Tokens of rule bodies -/

/-- What the tokens of a rule body can be. -/
structure Lexed (t : Token) : Prop where
  special : t.type = .special → isBar t = true ∨ ∃ contents, Quotes t contents
  keyword : t.type = .keyword → t.text ∈ Lexer.keywords
  /-- Besides the parenthesis, only a string literal says `)`. -/
  closing : t.text = ")" → t.type = .punctuation ∨ t.type = .string

/-- A parenthesis is punctuation. -/
lemma type_of_scan_parenthesis {p : Position} {cs : List Char} {t : Token}
    (h : (Lexer.scan .ruleBody p ')' cs).outcome = .ok t) : t.type = .punctuation := by
  have hword : Lexer.startsName ')' = false := by decide +kernel
  have hheads : ∀ op ∈ Lexer.operators, op.toList.head? ≠ some ')' ∧ op.toList ≠ [] := by decide
  have hoperator : Lexer.operatorAt? (')' :: cs) = none := by
    refine List.find?_eq_none.mpr fun op hop hprefix => ?_
    obtain ⟨hhead, hne⟩ := hheads op hop
    obtain ⟨d, ds, hd⟩ := List.exists_cons_of_ne_nil hne
    rw [hd] at hhead hprefix
    obtain ⟨rest, hrest⟩ := List.isPrefixOf_iff_prefix.mp hprefix
    cases hrest
    exact hhead rfl
  rw [Lexer.scan, if_neg (by decide), if_neg (by decide), if_neg (by decide), if_neg (by decide),
    hword, if_neg (by decide), Lexer.scanMark, hoperator] at h
  dsimp only at h
  rw [if_pos (by decide)] at h
  cases h
  rfl

lemma lexed_of_scan {p : Position} {c : Char} {cs : List Char} {t : Token}
    (h : (Lexer.scan .ruleBody p c cs).outcome = .ok t) : Lexed t := by
  obtain ⟨-, hof⟩ := Lexer.faithful_scan .ruleBody p c cs t h
  refine ⟨fun htype => ?_, hof.keyword, fun htext => ?_⟩
  · have htext := hof.text (by simp [htype])
    obtain ⟨-, hspan | ⟨contents, hspan⟩⟩ := hof.mark htype
    · refine .inl ?_
      rw [isBar, htype, ← String.ofList_toList (s := t.text), htext, hspan]
      decide
    · exact .inr ⟨String.ofList contents, htype, by rw [htext, hspan, String.toList_ofList]⟩
  · by_cases hstring : t.type = .string
    · exact .inr hstring
    · have hspan := Lexer.scan_append .ruleBody p c cs
      rw [← hof.text hstring, htext] at hspan
      cases hspan
      exact .inl (type_of_scan_parenthesis h)

lemma lexed_of_tokenize {text : String} {ts : List Token}
    (h : Lexer.tokenize .ruleBody text = .ok ts) : ∀ t ∈ ts, Lexed t :=
  Lexer.forall_of_tokenize (fun _ _ _ _ => lexed_of_scan) h

/-! ### Slots that are read -/

variable {rule : String} {isSymbol : String → Bool} {closes : Token → Prop}

lemma ofName?_of_alternative {name : String} {e : Element} (h : alternative name = .ok e) :
    ∃ type, TokenType.ofName? name = some type ∧ e = .terminal (.any type) := by
  unfold alternative at h
  split at h
  · next type htype =>
    cases h
    exact ⟨type, htype, rfl⟩
  · cases h

lemma alternative_eq_ok {name : String} {type : TokenType}
    (h : TokenType.ofName? name = some type) : alternative name = .ok (.terminal (.any type)) := by
  rw [alternative, h]

/-- What is read behind the first name of an alternation, as far as there are bars. -/
lemma operands_sound {first : String} {ts rest : List Token} {names : List String}
    (h : operands first ts = .ok (names, rest)) {t : Token} (ht : t.IsName) {type : TokenType}
    (htype : TokenType.ofName? t.text = some type) {es : List Element}
    (hes : names.mapM alternative = .ok es) :
    ∃ taken types, ts = taken ++ rest ∧ Alternation (t :: taken) (type :: types) ∧
      es = types.map (fun type => .terminal (.any type)) ∧ names.length = types.length := by
  fun_induction operands first ts generalizing names rest t type es with
  | case1 | case3 | case6 =>
    cases h
    cases hes
    exact ⟨[], [], rfl, .last ht htype, rfl, rfl⟩
  | case2 | case5 => cases h
  | case4 bar u ts hbar hu ih =>
    obtain ⟨⟨names', rest'⟩, hoperands, h⟩ := bind_eq_ok_iff.mp h
    cases h
    rw [List.mapM_cons] at hes
    obtain ⟨e, he, hes⟩ := bind_eq_ok_iff.mp hes
    obtain ⟨es', hes', hes⟩ := bind_eq_ok_iff.mp hes
    cases hes
    obtain ⟨type', htype', rfl⟩ := ofName?_of_alternative he
    obtain ⟨taken, types, rfl, halternation, rfl, hlength⟩ := ih hoperands (.inl hu) htype' hes'
    exact ⟨bar :: u :: taken, type' :: types, rfl, .more ht htype hbar halternation, rfl,
      congrArg (· + 1) hlength⟩

/-- Where a bar follows, an alternation has a second name. -/
lemma ne_nil_of_operands {first : String} {t : Token} {ts rest : List Token} {names : List String}
    (hbar : isBar t = true) (h : operands first (t :: ts) = .ok (names, rest)) : names ≠ [] := by
  cases ts with
  | nil =>
    rw [operands, if_pos hbar] at h
    cases h
  | cons u ts =>
    rw [operands, if_pos hbar] at h
    split at h
    · obtain ⟨⟨names', rest'⟩, -, h⟩ := bind_eq_ok_iff.mp h
      cases h
      exact List.cons_ne_nil _ _
    · cases h

lemma literal_eq_ok {contents : String} {x : Terminal} :
    literal contents = .ok x ↔
      ∃ y, Lexer.tokenize .script contents = .ok [y] ∧ x = .literal y.type y.text := by
  unfold literal
  constructor
  · intro h
    split at h
    · cases h
    · next y hy =>
      cases h
      exact ⟨y, hy, rfl⟩
    · cases h
  · rintro ⟨y, hy, rfl⟩
    rw [hy]

/-- What stands between backticks is what is read between them. -/
lemma Quotes.contents_eq {t : Token} {contents : String} (h : Quotes t contents) :
    String.ofList (t.text.toList.drop 1).dropLast = contents := by
  rw [h.2, List.drop_one, List.tail_cons, List.dropLast_concat, String.ofList_toList]

lemma single_sound {t : Token} (ht : t.IsName) {ts rest : List Token} {es : List Element}
    (h : slot.single rule isSymbol ts t.text = .ok (es, rest)) :
    ts = rest ∧ Slot closes isSymbol [t] es := by
  unfold slot.single at h
  split at h
  · next type htype =>
    cases h
    exact ⟨rfl, .tokenType ht htype⟩
  · next htype =>
    split at h
    · next hsymbol =>
      cases h
      exact ⟨rfl, .symbol ht htype hsymbol⟩
    · cases h

lemma alternation_sound {t bar : Token} (ht : t.IsName) (hbar : isBar bar = true)
    {ts rest : List Token} {es : List Element}
    (h : (do
      let (names, rest) ← operands t.text (bar :: ts)
      let elements ← (t.text :: names).mapM alternative
      return (elements, rest) : Except GrammarError _) = .ok (es, rest)) :
    ∃ taken, bar :: ts = taken ++ rest ∧ Slot closes isSymbol (t :: taken) es := by
  obtain ⟨⟨names, rest'⟩, hoperands, h⟩ := bind_eq_ok_iff.mp h
  obtain ⟨es', hes, h⟩ := bind_eq_ok_iff.mp h
  cases h
  rw [List.mapM_cons] at hes
  obtain ⟨e, he, hes⟩ := bind_eq_ok_iff.mp hes
  obtain ⟨es'', hes'', hes⟩ := bind_eq_ok_iff.mp hes
  cases hes
  obtain ⟨type, htype, rfl⟩ := ofName?_of_alternative he
  obtain ⟨taken, types, htaken, halternation, rfl, hlength⟩ :=
    operands_sound hoperands ht htype hes''
  have hne := List.length_pos_iff.mpr (ne_nil_of_operands hbar hoperands)
  refine ⟨taken, htaken, .alternation halternation ?_⟩
  rw [List.length_cons]
  omega

/-- A name that no bar follows is a slot of its own. -/
lemma slot_of_isName {t : Token} (ht : t.IsName) {ts : List Token}
    (hbar : ∀ u ∈ ts.head?, isBar u = false) :
    slot rule isSymbol t ts = slot.single rule isSymbol ts t.text := by
  cases ts with
  | nil => rcases ht with ht | ht <;> simp only [slot, ht]
  | cons u us =>
    rcases ht with ht | ht <;> simp only [slot, ht, hbar u rfl, Bool.false_eq_true, if_false]

/-- Where a bar follows a name, there is an alternation. -/
lemma slot_of_isBar {t : Token} (ht : t.IsName) {bar : Token} (hbar : isBar bar = true)
    (ts : List Token) :
    slot rule isSymbol t (bar :: ts) = (do
      let (names, rest) ← operands t.text (bar :: ts)
      let elements ← (t.text :: names).mapM alternative
      return (elements, rest)) := by
  rcases ht with ht | ht <;> simp only [slot, ht, hbar, if_true]

lemma name_sound {t : Token} (ht : t.IsName) {ts rest : List Token} {es : List Element}
    (h : slot rule isSymbol t ts = .ok (es, rest)) :
    ∃ taken, t :: ts = taken ++ rest ∧ Slot closes isSymbol taken es := by
  by_cases hbar : ∀ u ∈ ts.head?, isBar u = false
  · rw [slot_of_isName ht hbar] at h
    obtain ⟨rfl, hslot⟩ := single_sound ht h
    exact ⟨[t], rfl, hslot⟩
  · push Not at hbar
    obtain ⟨bar, hhead, hbar⟩ := hbar
    obtain ⟨us, rfl⟩ := List.head?_eq_some_iff.mp hhead
    rw [slot_of_isBar ht (by simpa using hbar)] at h
    obtain ⟨taken, htaken, hslot⟩ := alternation_sound ht (by simpa using hbar) h
    exact ⟨t :: taken, congrArg (t :: ·) htaken, hslot⟩

/-- **What is read as a slot is a slot.** -/
lemma slot_sound {t : Token} {ts rest : List Token} {es : List Element} (ht : Lexed t)
    (h : slot rule isSymbol t ts = .ok (es, rest)) :
    ∃ taken, t :: ts = taken ++ rest ∧ Slot (·.text = ")") isSymbol taken es := by
  by_cases hname : t.IsName
  · exact name_sound hname h
  unfold slot at h
  split at h
  · next htype =>
    split at h
    · cases h
    · next hbar =>
      obtain ⟨x, hx, h⟩ := bind_eq_ok_iff.mp h
      cases h
      obtain ⟨contents, hquotes⟩ := (ht.special htype).resolve_left (by simp [isBar, hbar])
      rw [hquotes.contents_eq] at hx
      obtain ⟨y, hy, rfl⟩ := literal_eq_ok.mp hx
      exact ⟨[t], rfl, .literal hquotes hy⟩
  · next htype =>
    split at h
    · next htext =>
      split at h
      · split at h
        · next hclose =>
          cases h
          exact ⟨_, rfl, .empty ⟨htype, htext⟩ hclose⟩
        · cases h
      · cases h
    · cases h
  · next htype => exact absurd (.inl htype) hname
  · next htype => exact absurd (.inr htype) hname
  · cases h

lemma slots_sound {ts : List Token} {slots' : List (List Element)} (hts : ∀ t ∈ ts, Lexed t)
    (h : slots rule isSymbol ts = .ok slots') : Split (·.text = ")") isSymbol ts slots' := by
  fun_induction slots rule isSymbol ts generalizing slots' with
  | case1 =>
    cases h
    exact ⟨[], rfl, .nil⟩
  | case2 => cases h
  | case3 t ts es rest hslot ih =>
    obtain ⟨more, hmore, h⟩ := bind_eq_ok_iff.mp h
    cases h
    obtain ⟨taken, htaken, hs⟩ := slot_sound (hts t List.mem_cons_self) hslot
    rw [htaken] at hts ⊢
    obtain ⟨groups, rfl, hgroups⟩ := ih (fun u hu => hts u (List.mem_append_right _ hu)) hmore
    exact ⟨taken :: groups, rfl, .cons hs hgroups⟩

/-! ### Slots are read -/

/-- A name of a token type is an identifier. -/
lemma Lexed.type_eq_identifier {t : Token} (ht : Lexed t) (hname : t.IsName) {type : TokenType}
    (htype : TokenType.ofName? t.text = some type) : t.type = .identifier := by
  refine hname.resolve_right fun hkeyword => ?_
  have hnone : ∀ word ∈ Lexer.keywords, TokenType.ofName? word = none := by decide
  rw [hnone _ (ht.keyword hkeyword)] at htype
  cases htype

lemma isBar_eq_false {t : Token} (h : t.type ≠ .special) : isBar t = false := by
  simp [isBar, h]

lemma isBar_of_isName {t : Token} (h : t.IsName) : isBar t = false := by
  refine isBar_eq_false ?_
  rcases h with h | h <;> simp [h]

lemma Quotes.ne_bar {t : Token} {contents : String} (h : Quotes t contents) : t.text ≠ "|" := by
  intro htext
  have hhead := congrArg List.head? h.2
  rw [htext, List.head?_cons] at hhead
  exact absurd hhead (by decide)

/-- An alternation is read up to the first token that is no bar. -/
lemma operands_complete {ts : List Token} {types : List TokenType} (h : Alternation ts types)
    (hts : ∀ t ∈ ts, Lexed t) {rest : List Token} (hrest : ∀ u ∈ rest.head?, isBar u = false) :
    ∃ t taken type types', ts = t :: taken ∧ types = type :: types' ∧ t.IsName ∧
      TokenType.ofName? t.text = some type ∧
      ∃ names, (∀ first, operands first (taken ++ rest) = .ok (names, rest)) ∧
        names.mapM alternative = .ok (types'.map fun type => .terminal (.any type)) := by
  induction h with
  | @last t type hname htype =>
    refine ⟨t, [], type, [], rfl, rfl, hname, htype, [], fun first => ?_, rfl⟩
    rcases rest with _ | ⟨u, _ | ⟨v, us⟩⟩
    · rfl
    · simp [operands, hrest u rfl]
    · simp [operands, hrest u rfl]
  | @more t bar ts' type types' hname htype hbar h ih =>
    obtain ⟨u, taken, type', types', rfl, rfl, hname', htype', names, hnames, hmap⟩ :=
      ih fun v hv => hts v (List.mem_cons_of_mem _ (List.mem_cons_of_mem _ hv))
    have hu : u.type = .identifier := (hts u (by simp)).type_eq_identifier hname' htype'
    refine ⟨t, bar :: u :: taken, type, type' :: types', rfl, rfl, hname, htype,
      u.text :: names, fun first => ?_, ?_⟩
    · rw [List.cons_append, List.cons_append, operands, if_pos hbar, if_pos hu, hnames]
      rfl
    · rw [List.mapM_cons, alternative_eq_ok htype', hmap]
      rfl

/-- **A slot is read as what it lists**, unless a bar follows. -/
lemma slot_complete {ts rest : List Token} {es : List Element}
    (h : Slot (·.text = ")") isSymbol ts es) (hts : ∀ t ∈ ts, Lexed t)
    (hrest : ∀ u ∈ rest.head?, isBar u = false) :
    ∃ t taken, ts = t :: taken ∧ isBar t = false ∧
      slot rule isSymbol t (taken ++ rest) = .ok (es, rest) := by
  cases h with
  | @literal t x contents hquotes hcontents =>
    refine ⟨t, [], rfl, by simp [isBar, hquotes.ne_bar], ?_⟩
    simp only [List.nil_append, slot, hquotes.1, if_neg hquotes.ne_bar, hquotes.contents_eq,
      literal_eq_ok.mpr ⟨x, hcontents, rfl⟩]
    rfl
  | @tokenType t type hname htype =>
    refine ⟨t, [], rfl, isBar_of_isName hname, ?_⟩
    rw [List.nil_append, slot_of_isName hname hrest, slot.single, htype]
  | @symbol t hname htype hsymbol =>
    refine ⟨t, [], rfl, isBar_of_isName hname, ?_⟩
    rw [List.nil_append, slot_of_isName hname hrest, slot.single, htype]
    exact if_pos hsymbol
  | @alternation _ types h hlength =>
    obtain ⟨t, taken, type, types, rfl, rfl, hname, htype, names, hnames, hmap⟩ :=
      operands_complete h hts hrest
    refine ⟨t, taken, rfl, isBar_of_isName hname, ?_⟩
    cases h with
    | last => simp at hlength
    | more _ _ hbar h =>
      have helements : (t.text :: names).mapM alternative =
          .ok ((type :: types).map fun type => .terminal (.any type)) := by
        rw [List.mapM_cons, alternative_eq_ok htype, hmap]
        rfl
      rw [List.cons_append, slot_of_isBar hname hbar]
      exact bind_eq_ok_iff.mpr
        ⟨_, hnames t.text, bind_eq_ok_iff.mpr ⟨_, helements, rfl⟩⟩
  | @empty l r hl hr =>
    refine ⟨l, [r], rfl, isBar_eq_false (by simp [hl.1]), ?_⟩
    simp only [List.cons_append, List.nil_append, slot, hl.1, hl.2, hr, if_true]

lemma slots_cons {t : Token} {ts rest : List Token} {es : List Element}
    (h : slot rule isSymbol t ts = .ok (es, rest)) :
    slots rule isSymbol (t :: ts) = (slots rule isSymbol rest).map (es :: ·) := by
  rw [slots]
  split
  · next e he =>
    rw [h] at he
    cases he
  · next he =>
    rw [h] at he
    cases he
    rfl

lemma slots_complete {ts : List Token} {slots' : List (List Element)}
    (h : Split (·.text = ")") isSymbol ts slots') (hts : ∀ t ∈ ts, Lexed t) :
    slots rule isSymbol ts = .ok slots' := by
  obtain ⟨groups, rfl, h⟩ := h
  suffices slots rule isSymbol groups.flatten = .ok slots' ∧
      ∀ u ∈ groups.flatten.head?, isBar u = false from this.1
  induction h with
  | nil => exact ⟨by rw [List.flatten_nil, slots], by simp⟩
  | @cons group es groups slots' hslot _ ih =>
    rw [List.flatten_cons] at hts ⊢
    obtain ⟨hrest, hhead⟩ := ih fun t ht => hts t (List.mem_append_right _ ht)
    obtain ⟨t, taken, rfl, hbar, h⟩ :=
      slot_complete hslot (fun t ht => hts t (List.mem_append_left _ ht)) hhead
    rw [List.cons_append, slots_cons h, hrest]
    exact ⟨rfl, by simpa using hbar⟩

/-! ### Bodies -/

lemma parse_eq_ok {text : String} {bodies : List (List Element)} :
    parse rule text isSymbol = .ok bodies ↔ ∃ tokens slots',
      Lexer.tokenize .ruleBody text = .ok tokens ∧ slots rule isSymbol tokens = .ok slots' ∧
        bodies = choices slots' := by
  unfold parse
  constructor
  · intro h
    split at h
    · cases h
    · next tokens htokens =>
      obtain ⟨slots', hslots, rfl⟩ := Lexer.exists_of_map_eq_ok h
      exact ⟨tokens, slots', htokens, hslots, rfl⟩
  · rintro ⟨tokens, slots', htokens, hslots, rfl⟩
    simp only [htokens, hslots]
    rfl

/-- The tokens of a text are split into slots, and there is one body for each choice. -/
def Reads (closes : Token → Prop) (isSymbol : String → Bool) (text : String)
    (bodies : List (List Element)) : Prop :=
  ∃ tokens slots', Lexer.tokenize .ruleBody text = .ok tokens ∧
    Split closes isSymbol tokens slots' ∧ InOrder slots' bodies

/-- A closing parenthesis. -/
def ClosesEmpty (t : Token) : Prop := t.type = .punctuation ∧ t.text = ")"

/-- Some string literal of a text is a closing parenthesis. -/
def QuotesParenthesis (text : String) : Prop :=
  ∃ tokens, Lexer.tokenize .ruleBody text = .ok tokens ∧
    ∃ t ∈ tokens, t.type = .string ∧ t.text = ")"

lemma parse_iff_reads {text : String} {bodies : List (List Element)} :
    parse rule text isSymbol = .ok bodies ↔ Reads (·.text = ")") isSymbol text bodies := by
  rw [parse_eq_ok]
  constructor
  · rintro ⟨tokens, slots', htokens, hslots, hbodies⟩
    exact ⟨tokens, slots', htokens, slots_sound (lexed_of_tokenize htokens) hslots,
      inOrder_iff.mpr hbodies⟩
  · rintro ⟨tokens, slots', htokens, hsplit, hbodies⟩
    exact ⟨tokens, slots', htokens, slots_complete hsplit (lexed_of_tokenize htokens),
      inOrder_iff.mp hbodies⟩

lemma Slot.mono {closes' : Token → Prop} {ts : List Token} {es : List Element}
    (h : Slot closes isSymbol ts es) (hcloses : ∀ t ∈ ts, closes t → closes' t) :
    Slot closes' isSymbol ts es := by
  cases h with
  | literal hquotes hcontents => exact .literal hquotes hcontents
  | tokenType hname htype => exact .tokenType hname htype
  | symbol hname htype hsymbol => exact .symbol hname htype hsymbol
  | alternation h hlength => exact .alternation h hlength
  | empty hl hr => exact .empty hl (hcloses _ (by simp) hr)

lemma Split.mono {closes' : Token → Prop} {tokens : List Token} {slots' : List (List Element)}
    (h : Split closes isSymbol tokens slots') (hcloses : ∀ t ∈ tokens, closes t → closes' t) :
    Split closes' isSymbol tokens slots' := by
  obtain ⟨groups, rfl, h⟩ := h
  refine ⟨groups, rfl, ?_⟩
  induction h with
  | nil => exact .nil
  | cons hslot _ ih =>
    rw [List.flatten_cons] at hcloses
    exact .cons (hslot.mono fun t ht => hcloses t (List.mem_append_left _ ht))
      (ih fun t ht => hcloses t (List.mem_append_right _ ht))

/-- **What rule bodies mean.** A body is read just if its tokens can be split into slots, where any
token that says `)` closes an empty element, and then it means all choices in lexicographic order.
Unless it quotes the parenthesis, that is so too where only the parenthesis itself closes an empty
element. -/
theorem parse_iff_slots (rule : String) (isSymbol : String → Bool) (text : String)
    (bodies : List (List Element)) :
    (parse rule text isSymbol = .ok bodies ↔ Reads (·.text = ")") isSymbol text bodies) ∧
      (QuotesParenthesis text ∨
        (parse rule text isSymbol = .ok bodies ↔ Reads ClosesEmpty isSymbol text bodies)) := by
  refine ⟨parse_iff_reads, or_iff_not_imp_left.mpr fun hquoted => ?_⟩
  rw [parse_iff_reads]
  constructor
  · rintro ⟨tokens, slots', htokens, hsplit, hbodies⟩
    refine ⟨tokens, slots', htokens, hsplit.mono fun t ht htext => ⟨?_, htext⟩, hbodies⟩
    exact ((lexed_of_tokenize htokens t ht).closing htext).resolve_right
      fun htype => hquoted ⟨tokens, htokens, t, ht, htype, htext⟩
  · rintro ⟨tokens, slots', htokens, hsplit, hbodies⟩
    exact ⟨tokens, slots', htokens, hsplit.mono fun t _ h => h.2, hbodies⟩

lemma Slot.ne_nil {ts : List Token} {es : List Element} (h : Slot closes isSymbol ts es) :
    ts ≠ [] := by
  cases h with
  | alternation h => cases h <;> simp
  | _ => simp

/-- What begins with a parenthesis is an empty element. -/
lemma Slot.closed {t : Token} {ts : List Token} {es : List Element}
    (h : Slot closes isSymbol (t :: ts) es) (ht : t.type = .punctuation) :
    ∃ r, ts = [r] ∧ closes r := by
  have hname : ¬ t.IsName := fun h => by rcases h with h | h <;> simp [ht] at h
  cases h with
  | literal hquotes => simp [hquotes.1] at ht
  | tokenType h | symbol h => exact absurd h hname
  | alternation h =>
    cases h with
    | last h | more h => exact absurd h hname
  | empty _ hr => exact ⟨_, rfl, hr⟩

/-- **A quoted parenthesis closes an empty element**, though its tokens cannot be split into
slots. -/
theorem parse_quoted_parenthesis :
    parse "S" "( \x22)\x22 Expr" (· = "Expr") = .ok [[.empty, .nonTerminal "Expr"]] ∧
      ∀ bodies, ¬ Reads ClosesEmpty (· = "Expr") "( \x22)\x22 Expr" bodies := by
  have htokens : Lexer.tokenize .ruleBody "( \x22)\x22 Expr" =
      .ok [⟨.punctuation, "(", ⟨1, 1⟩⟩, ⟨.string, ")", ⟨1, 3⟩⟩, ⟨.identifier, "Expr", ⟨1, 7⟩⟩] := by
    decide +kernel
  constructor
  · refine parse_eq_ok.mpr ⟨_, [[.empty], [.nonTerminal "Expr"]], htokens, ?_, rfl⟩
    rw [slots_cons rfl, slots_cons rfl, slots]
    rfl
  · rintro bodies ⟨tokens, slots', htokens', ⟨groups, hgroups, h⟩, -⟩
    cases htokens.symm.trans htokens'
    cases h with
    | nil => cases hgroups
    | cons hslot _ =>
      obtain ⟨t, ts, rfl⟩ := List.exists_cons_of_ne_nil hslot.ne_nil
      rw [List.flatten_cons, List.cons_append, List.cons.injEq] at hgroups
      obtain ⟨rfl, hrest⟩ := hgroups
      obtain ⟨r, rfl, hr⟩ := hslot.closed rfl
      rw [List.singleton_append, List.cons.injEq] at hrest
      obtain ⟨rfl, -⟩ := hrest
      exact absurd hr.1 (by decide)

end RuleBody

end Coscript
