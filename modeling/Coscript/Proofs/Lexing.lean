import Coscript.Proofs.Containers
import Coscript.Token.Lexer
import Mathlib.Data.List.TakeWhile

/-!
# The texts of tokens

Only the contents of string literals are as free as the source text. All other tokens are spelled
with digits, letters, marks, and what else the lexer asks for by name. None of them holds the
character zero, which ends texts in bytecode.

* `Lexer.Spelled`: how tokens are spelled that are no string literals;
* `Lexer.spelled_of_tokenize`, `Lexer.zeroFree_of_tokenize`: these tokens in a text.
-/

namespace Coscript

/-- A text without the character zero. -/
def ZeroFree (s : String) : Prop := '\x00' ∉ s.toList

instance (s : String) : Decidable (ZeroFree s) := inferInstanceAs (Decidable (_ ∉ _))

namespace Lexer

/-! ### Spelling -/

/-- **How a token of some type is spelled**, unless it is a string literal. -/
inductive Spelled : Mode → TokenType → List Char → Prop
  | integer {mode : Mode} {ds : List Char} (hne : ds ≠ [])
      (hds : ∀ c ∈ ds, CharClass.isDigit c = true) : Spelled mode .integer ds
  | float {mode : Mode} {ds es : List Char} (hds : ds ≠ [] ∧ ∀ c ∈ ds, CharClass.isDigit c = true)
      (hes : es ≠ [] ∧ ∀ c ∈ es, CharClass.isDigit c = true) :
      Spelled mode .float (ds ++ '.' :: es)
  | word {mode : Mode} {c : Char} {cs : List Char} (hc : startsName c = true)
      (hcs : ∀ d ∈ cs, continuesName mode d = true) :
      Spelled mode (if String.ofList (c :: cs) ∈ keywords then .keyword else .identifier) (c :: cs)
  /-- In a rule body, a bar begins no operator. -/
  | operator {mode : Mode} {op : String} (hop : op ∈ operators)
      (hbar : mode = .ruleBody → op ≠ "||") : Spelled mode .operator op.toList
  | punctuation {mode : Mode} {c : Char} (hc : c ∈ punctuation) : Spelled mode .punctuation [c]
  | literal {contents : List Char} (h : ∀ c ∈ contents, c ≠ backtick ∧ c ≠ '\n') :
      Spelled .ruleBody .special (backtick :: (contents ++ [backtick]))
  | bar : Spelled .ruleBody .special ['|']

variable {mode : Mode} {p : Position} {c : Char} {cs : List Char} {t : Token}

lemma spelled_of_scanNumber (hc : CharClass.isDigit c = true)
    (h : (scanNumber p (c :: cs)).outcome = .ok t) : Spelled mode t.type t.text.toList := by
  have hdigits : ∀ (d : Char) (ds : List Char), CharClass.isDigit d = true →
      (d :: ds).takeWhile CharClass.isDigit ≠ [] ∧
        ∀ e ∈ (d :: ds).takeWhile CharClass.isDigit, CharClass.isDigit e = true :=
    fun d ds hd => ⟨by simp [hd], fun e he => List.mem_takeWhile_imp he⟩
  have hwhole := hdigits c cs hc
  unfold scanNumber at h
  dsimp only at h
  split at h
  · next d ds _ =>
    split at h
    · next hd =>
      cases h
      rw [String.toList_ofList]
      exact .float hwhole (hdigits d ds hd)
    · cases h
      rw [String.toList_ofList]
      exact .integer hwhole.1 hwhole.2
  · cases h
    rw [String.toList_ofList]
    exact .integer hwhole.1 hwhole.2

lemma spelled_of_scanLiteral (h : (scanLiteral p backtick cs).outcome = .ok t) :
    Spelled .ruleBody t.type t.text.toList := by
  unfold scanLiteral at h
  dsimp only at h
  split at h
  · split at h
    · next hc =>
      subst hc
      cases h
      rw [String.toList_ofList]
      exact .literal fun c hc => by simpa using List.mem_takeWhile_imp hc
    · cases h
  · cases h

lemma spelled_of_scanWord (hc : startsName c = true) (h : (scanWord mode p c cs).outcome = .ok t) :
    Spelled mode t.type t.text.toList := by
  unfold scanWord at h
  cases h
  rw [String.toList_ofList]
  exact .word hc fun d hd => List.mem_takeWhile_imp hd

lemma spelled_of_scanMark (hbar : ¬(mode = .ruleBody ∧ c = '|'))
    (h : (scanMark p c cs).outcome = .ok t) : Spelled mode t.type t.text.toList := by
  unfold scanMark at h
  split at h
  · next op hop =>
    cases h
    refine .operator (List.mem_of_find?_eq_some hop) fun hmode (heq : op = "||") => hbar ⟨hmode, ?_⟩
    have hprefix := List.find?_some hop
    rw [heq, List.isPrefixOf_iff_prefix] at hprefix
    exact (List.cons_prefix_cons.mp hprefix).1.symm
  · split at h
    · next hmem =>
      cases h
      rw [String.toList_singleton]
      exact .punctuation hmem
    · cases h

/-- What is scanned as a token is spelled like one. -/
lemma spelled_of_scan (h : (scan mode p c cs).outcome = .ok t) (ht : t.type ≠ .string) :
    Spelled mode t.type t.text.toList := by
  unfold scan at h
  split at h
  · next hc => exact spelled_of_scanNumber hc h
  · split at h
    · unfold scanString at h
      dsimp only at h
      generalize scanContents p (p.next c) cs = contents at h
      obtain ⟨span, rest, outcome⟩ := contents
      cases outcome with
      | error e => cases h
      | ok text =>
        cases h
        exact absurd rfl ht
    · split at h
      · next hmode =>
        obtain ⟨rfl, rfl⟩ := hmode
        exact spelled_of_scanLiteral h
      · split at h
        · next hmode =>
          obtain ⟨rfl, rfl⟩ := hmode
          cases h
          simpa using Spelled.bar
        · next hbar =>
          split at h
          · next hc => exact spelled_of_scanWord hc h
          · exact spelled_of_scanMark hbar h

/-! ### Characters of tokens -/

/-- The characters that the tokens of scripts are spelled with. -/
def spells (c : Char) : Bool :=
  CharClass.isDigit c || c == '.' || continuesName .script c || punctuation.contains c ||
    operators.any fun op => op.toList.contains c

/-- A name is continued by whatever may start it. -/
lemma continuesName_of_startsName (h : startsName c = true) : continuesName mode c = true := by
  rcases Bool.or_eq_true_iff.mp h with h | h <;> simp [continuesName, CharClass.isAlphanumeric, h]

lemma Spelled.spells {type : TokenType} {span : List Char} (h : Spelled .script type span) :
    ∀ c ∈ span, spells c = true := by
  have hdigit : ∀ c, CharClass.isDigit c = true → Lexer.spells c = true := fun c hc => by
    simp [Lexer.spells, hc]
  have hname : ∀ c, continuesName .script c = true → Lexer.spells c = true := fun c hc => by
    simp [Lexer.spells, hc]
  cases h with
  | integer _ hds => exact fun c hc => hdigit c (hds c hc)
  | float hds hes =>
    intro c hc
    rcases List.mem_append.mp hc with hc | hc
    · exact hdigit c (hds.2 c hc)
    · rcases List.mem_cons.mp hc with rfl | hc
      · rfl
      · exact hdigit c (hes.2 c hc)
  | word hc hcs =>
    exact List.forall_mem_cons.mpr
      ⟨hname _ (continuesName_of_startsName hc), fun d hd => hname d (hcs d hd)⟩
  | operator hop _ =>
    intro c hc
    have hany : ∃ op ∈ operators, c ∈ op.toList := ⟨_, hop, hc⟩
    simp [Lexer.spells, hany]
  | punctuation hc =>
    rw [List.forall_mem_singleton]
    simp [Lexer.spells, hc]

/-! ### Tokens of texts -/

lemma forall_lexemes {mode : Mode} {P : Token → Prop} {p : Position} {cs : List Char}
    (hscan : ∀ p c cs t, (scan mode p c cs).outcome = .ok t → P t) :
    ∀ l ∈ lexemes mode p cs, ∀ t, l.outcome = .ok t → P t := by
  fun_induction lexemes mode p cs with
  | case1 => simp
  | case2 p cs trivia c rest hsplit q s ih => exact List.forall_mem_cons.mpr ⟨hscan q c rest, ih⟩

/-- What holds of every token that can be scanned holds of the tokens of a text. -/
lemma forall_of_tokenize {mode : Mode} {P : Token → Prop} {source : String} {ts : List Token}
    (hscan : ∀ p c cs t, (scan mode p c cs).outcome = .ok t → P t)
    (h : tokenize mode source = .ok ts) : ∀ t ∈ ts, P t := by
  intro t ht
  obtain ⟨_, hmem, rfl⟩ := exists_of_mem_mapM h ht
  obtain ⟨l, hl, houtcome⟩ := List.mem_map.mp hmem
  exact forall_lexemes hscan l hl t houtcome

/-- **A token that is no string literal is spelled with digits, letters and marks.** -/
theorem spelled_of_tokenize {mode : Mode} {source : String} {ts : List Token}
    (h : tokenize mode source = .ok ts) :
    ∀ t ∈ ts, t.type ≠ .string → Spelled mode t.type t.text.toList :=
  forall_of_tokenize (fun _ _ _ _ => spelled_of_scan) h

/-- **A token that is no string literal has a text without zero.** -/
theorem zeroFree_of_tokenize {source : String} {ts : List Token}
    (h : tokenize .script source = .ok ts) (t : Token) (ht : t ∈ ts) (htype : t.type ≠ .string) :
    ZeroFree t.text := fun hzero =>
  absurd ((spelled_of_tokenize h t ht htype).spells _ hzero) (by decide +kernel)

end Lexer

end Coscript
