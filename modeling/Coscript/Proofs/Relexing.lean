import Coscript.Proofs.Segmentation

/-!
# Tokens that are cut again

The spelling of a token tells the token: wherever it stands, it is cut as the same token, if nothing
or a space follows. So a text of spellings with spaces before them is cut into their tokens, and the
text of a token that is no string literal is cut into the token.

* `Lexer.Spelled.scan`: a spelling is scanned as its token;
* `Lexer.Spelled.outcomes`: a spelling is cut as its token, wherever it stands;
* `Lexer.exists_tokens_of_spaced`: spellings with spaces before them are cut into their tokens;
* `Lexer.tokenize_text`: a token is cut into itself.
-/

namespace Coscript

/-! ### White space -/

namespace CharClass

/-- The white characters. -/
def whites : List Char :=
  (CharRanges.whiteSpace.flatMap fun r => List.range' r.1 (r.2 + 1 - r.1)).map Char.ofNat

lemma exists_range_of_covers {ranges : List (Nat × Nat)} {n : Nat}
    (h : CharRanges.covers ranges n = true) : ∃ r ∈ ranges, r.1 ≤ n ∧ n ≤ r.2 := by
  induction ranges with
  | nil => cases h
  | cons r ranges ih =>
    rw [CharRanges.covers] at h
    split at h
    · cases h
    · next hge =>
      split at h
      · next hle => exact ⟨r, List.mem_cons_self, Nat.le_of_not_lt hge, hle⟩
      · obtain ⟨r', hr', hn⟩ := ih h
        exact ⟨r', List.mem_cons_of_mem r hr', hn⟩

lemma mem_whites {c : Char} (h : isWhite c = true) : c ∈ whites := by
  obtain ⟨r, hr, hge, hle⟩ := exists_range_of_covers h
  refine List.mem_map.mpr ⟨c.toNat, List.mem_flatMap.mpr ⟨r, hr, ?_⟩, Char.ofNat_toNat c⟩
  rw [List.mem_range'_1]
  omega

lemma eq_false_of_all {f : Char → Bool} {cs : List Char} (h : (cs.all fun c => !f c) = true)
    {c : Char} (hc : c ∈ cs) : f c = false := by
  simpa using List.all_eq_true.mp h c hc

/-- A property that no white character has is one of other characters. -/
lemma isWhite_eq_false {f : Char → Bool} (hf : (whites.all fun c => !f c) = true) {c : Char}
    (h : f c = true) : isWhite c = false := by
  by_contra hwhite
  rw [Bool.not_eq_false] at hwhite
  rw [eq_false_of_all hf (mem_whites hwhite)] at h
  cases h

end CharClass

namespace Lexer

variable {mode : Mode} {type : TokenType} {p q : Position} {c : Char} {cs span rest : List Char}
  {t : Token}

/-- Neither tokens of scripts nor names of rule bodies hold white space. -/
lemma isWhite_of_spells_or (h : (spells c || continuesName .ruleBody c) = true) :
    CharClass.isWhite c = false :=
  CharClass.isWhite_eq_false (f := fun c => spells c || continuesName .ruleBody c)
    (by decide +kernel) h

lemma isWhite_of_spells (h : spells c = true) : CharClass.isWhite c = false :=
  isWhite_of_spells_or (by rw [h, Bool.true_or])

lemma isWhite_of_isDigit (h : CharClass.isDigit c = true) : CharClass.isWhite c = false :=
  isWhite_of_spells (by simp [spells, h])

lemma isWhite_of_continuesName (h : continuesName mode c = true) : CharClass.isWhite c = false := by
  cases mode with
  | script => exact isWhite_of_spells (by simp [spells, h])
  | ruleBody => exact isWhite_of_spells_or (by rw [h, Bool.or_true])

/-- A space is white. -/
lemma isWhite_space : CharClass.isWhite ' ' = true := by decide

lemma continuesName_space (mode : Mode) : continuesName mode ' ' = false := by
  by_contra h
  rw [Bool.not_eq_false] at h
  exact absurd (isWhite_of_continuesName h) (by rw [isWhite_space]; simp)

/-! ### Spellings are scanned -/

/-- Nothing, or a space. -/
def Separated (rest : List Char) : Prop := ∀ c ∈ rest.head?, c = ' '

lemma separated_nil : Separated [] := nofun

lemma separated_space (cs : List Char) : Separated (' ' :: cs) := fun _ h =>
  (Option.mem_some_iff.mp h).symm

/-- What is taken from some characters up to a space are these characters. -/
lemma takeWhile_separated {f : Char → Bool} (hall : ∀ c ∈ span, f c = true) (hspace : f ' ' = false)
    (hrest : Separated rest) :
    (span ++ rest).takeWhile f = span ∧ (span ++ rest).dropWhile f = rest := by
  have hhead : rest.takeWhile f = [] ∧ rest.dropWhile f = rest := by
    cases rest with
    | nil => exact ⟨rfl, rfl⟩
    | cons c cs =>
      obtain rfl := hrest c rfl
      simp [hspace]
  rw [List.takeWhile_append_of_pos hall, List.dropWhile_append_of_pos hall, hhead.1, hhead.2,
    List.append_nil]
  exact ⟨rfl, rfl⟩

lemma scanNumber_integer (hspan : ∀ c ∈ span, CharClass.isDigit c = true)
    (hrest : Separated rest) :
    scanNumber p (span ++ rest) = ⟨span, rest, .ok ⟨.integer, String.ofList span, p⟩⟩ := by
  obtain ⟨htake, hdrop⟩ := takeWhile_separated hspan (by decide) hrest
  unfold scanNumber
  dsimp only
  rw [htake, hdrop]
  split
  · next d ds =>
    have hpoint := hrest '.' rfl
    simp at hpoint
  · rfl

lemma scanNumber_float {es : List Char} (hspan : ∀ c ∈ span, CharClass.isDigit c = true)
    (hes : es ≠ [] ∧ ∀ c ∈ es, CharClass.isDigit c = true) (hrest : Separated rest) :
    scanNumber p (span ++ ('.' :: es ++ rest)) =
      ⟨span ++ '.' :: es, rest, .ok ⟨.float, String.ofList (span ++ '.' :: es), p⟩⟩ := by
  obtain ⟨e, es, rfl⟩ := List.exists_cons_of_ne_nil hes.1
  have he := hes.2 e List.mem_cons_self
  have hpoint : CharClass.isDigit '.' = false := by decide
  obtain ⟨htake, hdrop⟩ := takeWhile_separated hes.2 (by decide) hrest
  rw [List.cons_append] at htake hdrop
  have hwhole : (span ++ ('.' :: (e :: es) ++ rest)).takeWhile CharClass.isDigit = span := by
    rw [List.takeWhile_append_of_pos hspan]
    simp [hpoint]
  have hbehind : (span ++ ('.' :: (e :: es) ++ rest)).dropWhile CharClass.isDigit =
      '.' :: e :: (es ++ rest) := by
    rw [List.dropWhile_append_of_pos hspan]
    simp [hpoint]
  unfold scanNumber
  simp only [hwhole, hbehind, he, if_true, htake, hdrop]

lemma scanLiteral_contents (h : ∀ c ∈ span, c ≠ backtick ∧ c ≠ '\n') :
    scanLiteral p backtick (span ++ backtick :: rest) =
      ⟨backtick :: (span ++ [backtick]), rest,
        .ok ⟨.special, String.ofList (backtick :: (span ++ [backtick])), p⟩⟩ := by
  have hspan : ∀ c ∈ span, (decide (c ≠ backtick) && decide (c ≠ '\n')) = true := by
    simpa using h
  unfold scanLiteral
  rw [List.takeWhile_append_of_pos hspan, List.dropWhile_append_of_pos hspan]
  simp

lemma scanWord_continued (hcs : ∀ d ∈ cs, continuesName mode d = true) (hrest : Separated rest) :
    scanWord mode p c (cs ++ rest) = ⟨c :: cs, rest,
      .ok ⟨if String.ofList (c :: cs) ∈ keywords then .keyword else .identifier,
        String.ofList (c :: cs), p⟩⟩ := by
  obtain ⟨htake, hdrop⟩ := takeWhile_separated hcs (continuesName_space mode) hrest
  rw [scanWord, htake, hdrop]

/-- No operator goes on with a space. -/
lemma operatorAt?_separated (span : List Char) (hrest : Separated rest) :
    operatorAt? (span ++ rest) = operatorAt? span := by
  have hspace : ∀ op ∈ operators, ' ' ∉ op.toList := by decide
  rw [operatorAt?, operatorAt?, ← List.head?_filter, ← List.head?_filter]
  refine congrArg List.head? (List.filter_congr fun op hop => ?_)
  rw [Bool.eq_iff_iff, List.isPrefixOf_iff_prefix, List.isPrefixOf_iff_prefix]
  refine ⟨fun h => ?_, fun h => h.trans (List.prefix_append span rest)⟩
  rcases List.prefix_or_prefix_of_prefix h (List.prefix_append span rest) with hle | ⟨more, hmore⟩
  · exact hle
  -- An operator that went on behind the span would hold the space.
  · rw [← hmore, List.prefix_append_right_inj] at h
    cases more with
    | nil => rw [← hmore, List.append_nil]
    | cons d more =>
      obtain ⟨tail, rfl⟩ := h
      obtain rfl := hrest d rfl
      exact absurd (hmore ▸ List.mem_append_right span List.mem_cons_self) (hspace op hop)

lemma scanMark_operator {op : String} (hop : op ∈ operators) (hspan : op.toList = c :: cs)
    (hrest : Separated rest) :
    scanMark p c (cs ++ rest) = ⟨c :: cs, rest, .ok ⟨.operator, String.ofList (c :: cs), p⟩⟩ := by
  have hfound : ∀ op ∈ operators, operatorAt? op.toList = some op := by decide
  have hop' := operatorAt?_separated (c :: cs) hrest
  rw [← hspan, hfound op hop, hspan, List.cons_append] at hop'
  unfold scanMark
  simp only [hop', hspan, List.length_cons, Nat.add_sub_cancel, List.take_left, List.drop_left]
  rw [← hspan, String.ofList_toList]

lemma scanMark_punctuation (hc : c ∈ punctuation) (hrest : Separated rest) :
    scanMark p c rest = ⟨[c], rest, .ok ⟨.punctuation, String.ofList [c], p⟩⟩ := by
  have hnone : (punctuation.all fun c => operatorAt? [c] = none) = true := by decide
  have hop := operatorAt?_separated [c] hrest
  rw [of_decide_eq_true (List.all_eq_true.mp hnone c hc), List.singleton_append] at hop
  rw [scanMark, hop]
  simp only [if_pos hc, String.singleton_eq_ofList]

/-- The ten digits. -/
def digits : List Char := (List.range' 48 10).map Char.ofNat

lemma mem_digits (h : CharClass.isDigit c = true) : c ∈ digits := by
  have hrange : 48 ≤ c.toNat ∧ c.toNat ≤ 57 := by
    simpa [CharClass.isDigit, Char.le_def, UInt32.le_iff_toNat_le] using h
  refine List.mem_map.mpr ⟨c.toNat, ?_, Char.ofNat_toNat c⟩
  rw [List.mem_range'_1]
  omega

/-- What else may begin a token. -/
def heads : List Char :=
  ['\x22', backtick, '|', '/'] ++ punctuation ++ operators.filterMap fun op => op.toList.head?

/-- Neither a digit nor what else may begin a token starts a name. -/
lemma startsName_eq_false (hc : c ∈ digits ++ heads) : startsName c = false :=
  CharClass.eq_false_of_all (by decide) hc

lemma ne_of_startsName {d : Char} (hc : startsName c = true) (hd : d ∈ digits ++ heads) :
    c ≠ d := by
  rintro rfl
  rw [startsName_eq_false hd] at hc
  cases hc

lemma isDigit_eq_false (hc : c ∈ heads) : CharClass.isDigit c = false :=
  CharClass.eq_false_of_all (by decide) hc

lemma isWhite_heads (hc : c ∈ heads) : CharClass.isWhite c = false :=
  CharClass.eq_false_of_all (by decide) hc

/-- What an operator begins with. -/
lemma exists_head_of_operator {op : String} (hop : op ∈ operators) : ∃ c cs, op.toList = c :: cs ∧
    (c ≠ '\x22' ∧ c ≠ backtick) ∧ (c = '|' → op = "||") ∧ (c = '/' → op = "/") := by
  have hne : ∀ op ∈ operators, op.toList ≠ [] := by decide
  have hhead : ∀ op ∈ operators, (op.toList.headD ' ' ≠ '\x22' ∧ op.toList.headD ' ' ≠ backtick) ∧
      (op.toList.headD ' ' = '|' → op = "||") ∧ (op.toList.headD ' ' = '/' → op = "/") := by decide
  obtain ⟨c, cs, hcs⟩ := List.exists_cons_of_ne_nil (hne op hop)
  have hhead := hhead op hop
  rw [hcs] at hhead
  exact ⟨c, cs, hcs, hhead⟩

/-- What starts a name begins no other token. -/
lemma scan_word (hc : startsName c = true) : Lexer.scan mode p c cs = scanWord mode p c cs := by
  have hdigit : CharClass.isDigit c ≠ true := fun h =>
    ne_of_startsName hc (List.mem_append_left _ (mem_digits h)) rfl
  rw [Lexer.scan, if_neg hdigit, if_neg (ne_of_startsName hc (by decide)),
    if_neg fun h => ne_of_startsName hc (by decide) h.2,
    if_neg fun h => ne_of_startsName hc (by decide) h.2, if_pos hc]

/-- What else begins an operator or is punctuation. -/
lemma scan_mark (hc : c ∈ heads) (hquote : c ≠ '\x22' ∧ c ≠ backtick)
    (hbar : ¬(mode = .ruleBody ∧ c = '|')) : Lexer.scan mode p c cs = scanMark p c cs := by
  rw [Lexer.scan, isDigit_eq_false hc, if_neg (by simp), if_neg hquote.1,
    if_neg fun h => hquote.2 h.2, if_neg hbar, startsName_eq_false (List.mem_append_right _ hc),
    if_neg (by simp)]

/-- **A spelling is scanned as its token**, if nothing or a space follows. -/
theorem Spelled.scan (h : Spelled mode type span) (hrest : Separated rest) :
    ∃ c cs, span = c :: cs ∧ CharClass.isWhite c = false ∧
      (c = '/' → (cs ++ rest).head? ≠ some '/') ∧
      Lexer.scan mode p c (cs ++ rest) = ⟨span, rest, .ok ⟨type, String.ofList span, p⟩⟩ := by
  cases h with
  | integer hne hds =>
    obtain ⟨c, cs, rfl⟩ := List.exists_cons_of_ne_nil hne
    have hc := hds c List.mem_cons_self
    refine ⟨c, cs, rfl, isWhite_of_isDigit hc, ?_, ?_⟩
    · rintro rfl
      cases hc
    · rw [Lexer.scan, if_pos hc]
      exact scanNumber_integer hds hrest
  | @float _ ds es hds hes =>
    obtain ⟨c, cs, rfl⟩ := List.exists_cons_of_ne_nil hds.1
    have hc := hds.2 c List.mem_cons_self
    refine ⟨c, cs ++ '.' :: es, rfl, isWhite_of_isDigit hc, ?_, ?_⟩
    · rintro rfl
      cases hc
    · rw [Lexer.scan, if_pos hc]
      have hnumber := scanNumber_float (p := p) hds.2 hes hrest
      rwa [← List.append_assoc] at hnumber
  | @word _ c cs hc hcs =>
    have hname : continuesName mode c = true := continuesName_of_startsName hc
    refine ⟨c, cs, rfl, isWhite_of_continuesName hname, ?_, ?_⟩
    · exact fun heq => absurd heq (ne_of_startsName hc (by decide))
    · rw [scan_word hc, scanWord_continued hcs hrest]
  | @operator _ op hop hbar =>
    obtain ⟨c, cs, hspan, hquote, hc, hslash⟩ := exists_head_of_operator hop
    have hmem : c ∈ heads :=
      List.mem_append_right _ (List.mem_filterMap.mpr ⟨op, hop, by rw [hspan]; rfl⟩)
    refine ⟨c, cs, hspan, isWhite_heads hmem, fun heq hcs => ?_, ?_⟩
    · rw [hslash heq] at hspan
      cases hspan
      exact absurd (hrest '/' hcs) (by decide)
    · rw [scan_mark hmem hquote fun h => hbar h.1 (hc h.2), scanMark_operator hop hspan hrest, hspan]
  | @punctuation _ c hc =>
    have hmem : c ∈ heads := List.mem_append_left _ (List.mem_append_right _ hc)
    have hne : ∀ {d}, d ∉ Lexer.punctuation → c ≠ d := fun hd heq => hd (heq ▸ hc)
    refine ⟨c, [], rfl, isWhite_heads hmem, fun heq => absurd heq (hne (by decide)), ?_⟩
    rw [scan_mark hmem ⟨hne (by decide), hne (by decide)⟩ fun h => hne (by decide) h.2]
    exact scanMark_punctuation hc hrest
  | @literal contents h =>
    refine ⟨backtick, contents ++ [backtick], rfl, isWhite_heads (by decide),
      fun h => absurd h (by decide), ?_⟩
    rw [Lexer.scan, if_neg (by decide), if_neg (by decide), if_pos ⟨rfl, rfl⟩, List.append_assoc]
    exact scanLiteral_contents h
  | bar =>
    refine ⟨'|', [], rfl, isWhite_heads (by decide), fun h => absurd h (by decide), ?_⟩
    rw [Lexer.scan, if_neg (by decide), if_neg (by decide), if_neg (by decide),
      if_pos ⟨rfl, rfl⟩]
    rfl

/-! ### Spellings are cut -/

lemma lexemes_eq_nil {trivia : List Char} (h : splitTrivia false cs = (trivia, [])) :
    lexemes mode p cs = [] := by
  rw [lexemes]
  split
  · rfl
  · next heq =>
    rw [h] at heq
    cases heq

lemma lexemes_eq_cons {trivia : List Char} (h : splitTrivia false cs = (trivia, c :: rest)) :
    lexemes mode p cs =
      ⟨trivia, (scan mode (p.after trivia) c rest).span, p.after trivia,
          (scan mode (p.after trivia) c rest).outcome⟩ ::
        lexemes mode ((p.after trivia).after (scan mode (p.after trivia) c rest).span)
          (scan mode (p.after trivia) c rest).rest := by
  rw [lexemes]
  split
  · next heq =>
    rw [h] at heq
    cases heq
  · next heq =>
    rw [h] at heq
    cases heq
    rfl

/-- The tokens and faults of a text that begins at a position. -/
def outcomes (mode : Mode) (p : Position) (cs : List Char) : List (Except LexError Token) :=
  (lexemes mode p cs).map (·.outcome)

lemma outcomes_nil : outcomes mode p [] = [] := by rw [outcomes, lexemes_eq_nil rfl]; rfl

/-- A space before a text is passed over. -/
lemma outcomes_space : outcomes mode p (' ' :: cs) = outcomes mode (p.next ' ') cs := by
  have hsplit : splitTrivia false (' ' :: cs) =
      (' ' :: (splitTrivia false cs).1, (splitTrivia false cs).2) := by
    rw [splitTrivia.eq_def]
    simp [isWhite_space]
  cases h : splitTrivia false cs with
  | mk trivia rest =>
    rw [h] at hsplit
    cases rest with
    | nil => rw [outcomes, outcomes, lexemes_eq_nil hsplit, lexemes_eq_nil h]
    | cons c rest =>
      rw [outcomes, outcomes, lexemes_eq_cons hsplit, lexemes_eq_cons h]
      rfl

/-- **A spelling is cut as its token**, wherever it stands. -/
theorem Spelled.outcomes (h : Spelled mode type span) (hrest : Separated rest) :
    Lexer.outcomes mode p (span ++ rest) = .ok ⟨type, String.ofList span, p⟩ ::
      Lexer.outcomes mode (p.after span) rest := by
  obtain ⟨c, cs, rfl, hwhite, hslash, hscan⟩ := h.scan (p := p) hrest
  have hsplit : splitTrivia false (c :: (cs ++ rest)) = ([], c :: (cs ++ rest)) := by
    rw [splitTrivia.eq_def]
    split
    · next heq => cases heq
    · next heq =>
      rw [List.cons.injEq] at heq
      exact absurd (by rw [heq.2]; rfl) (hslash heq.1)
    · next heq =>
      cases heq
      simp [hwhite]
  rw [List.cons_append, Lexer.outcomes, lexemes_eq_cons hsplit]
  have hafter : p.after [] = p := rfl
  rw [hafter, hscan]
  rfl

/-- **Spellings with spaces before them are cut into their tokens.** -/
theorem exists_tokens_of_spaced {spellings : List (TokenType × List Char)}
    (h : ∀ e ∈ spellings, Spelled mode e.1 e.2) (p : Position) :
    ∃ ts, (outcomes mode p (spellings.flatMap fun e => ' ' :: e.2)).mapM id = .ok ts ∧
      List.Forall₂ (fun e t => t.type = e.1 ∧ t.text = String.ofList e.2) spellings ts := by
  induction spellings generalizing p with
  | nil => exact ⟨[], by rw [List.flatMap_nil, outcomes_nil]; rfl, .nil⟩
  | cons e es ih =>
    obtain ⟨he, hes⟩ := List.forall_mem_cons.mp h
    obtain ⟨ts, hts, hforall⟩ := ih hes ((p.next ' ').after e.2)
    have hrest : Separated (es.flatMap fun e => ' ' :: e.2) := by
      cases es with
      | nil => exact separated_nil
      | cons e es => exact separated_space _
    refine ⟨⟨e.1, String.ofList e.2, p.next ' '⟩ :: ts, ?_, .cons ⟨rfl, rfl⟩ hforall⟩
    rw [List.flatMap_cons, List.cons_append, outcomes_space, he.outcomes hrest, List.mapM_cons]
    simp only [id_eq, hts]
    rfl

/-- **A token that is no string literal is cut into itself.** -/
theorem tokenize_text {source : String} {ts : List Token} (h : tokenize mode source = .ok ts)
    (ht : t ∈ ts) (htype : t.type ≠ .string) :
    tokenize mode t.text = .ok [⟨t.type, t.text, .start⟩] := by
  have hcut := (spelled_of_tokenize h t ht htype).outcomes (p := .start) separated_nil
  rw [List.append_nil, outcomes_nil, String.ofList_toList] at hcut
  rw [tokenize, show items mode t.text = outcomes mode .start t.text.toList from rfl, hcut]
  rfl

end Lexer

end Coscript
