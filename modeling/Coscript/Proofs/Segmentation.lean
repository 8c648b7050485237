import Coscript.Proofs.Lexing

/-!
# How texts are cut

The lexer takes a text apart without losing or making up anything: the spans of its lexemes stand in
the text one after the other, and what stands between them is white space and comments. This holds
of faults as well as of tokens, so that whatever the text is, all of it is accounted for.

A token says what its span says. Its position is the place where the span begins, its text is the
span itself, or for a string literal what is between the quotes, and where it ends is no accident: a
name ends where no character continues it, and no longer operator begins where an operator does.

* `Lexer.Trivia`, `Lexer.Unescapes`, `Lexer.TokenOf`, `Lexer.Segmentation`: what is promised;
* `Lexer.lexemes_segmentation`: the lexemes of every text keep the promises, in both modes.
-/

namespace Coscript

/-! ### Places -/

namespace Position

lemma after_append (p : Position) (cs ds : List Char) :
    p.after (cs ++ ds) = (p.after cs).after ds := List.foldl_append

/-- The line of a place is one more than the line feeds before it. -/
lemma line_after (cs : List Char) : (start.after cs).line = 1 + cs.count '\n' := by
  induction cs using List.reverseRecOn with
  | nil => rfl
  | append_singleton cs c ih =>
    rw [after_append, List.count_append, ← Nat.add_assoc, ← ih]
    show (next (start.after cs) c).line = _
    unfold next
    by_cases hc : c = '\n' <;> simp [hc]

/-- The column of a place is one more than the characters since the last line feed. -/
lemma column_after (cs : List Char) :
    (start.after cs).column = 1 + (cs.reverse.takeWhile (· ≠ '\n')).length := by
  induction cs using List.reverseRecOn with
  | nil => rfl
  | append_singleton cs c ih =>
    rw [after_append, List.reverse_append]
    show (next (start.after cs) c).column = _
    unfold next
    by_cases hc : c = '\n'
    · simp [hc]
    · simp [hc, ih, Nat.add_assoc]

end Position

namespace Lexer

/-! ### What is promised -/

/-- What is passed over: white space, and comments that end with their lines. The last comment may
instead run to the end of the text; the flag says that it does. -/
inductive Trivia : Bool → List Char → Prop
  | nil : Trivia false []
  | white {unended : Bool} {c : Char} {cs : List Char} (hc : CharClass.isWhite c = true)
      (h : Trivia unended cs) : Trivia unended (c :: cs)
  | comment {unended : Bool} {body cs : List Char} (hbody : '\n' ∉ body) (h : Trivia unended cs) :
      Trivia unended ('/' :: '/' :: (body ++ '\n' :: cs))
  | unended {body : List Char} (hbody : '\n' ∉ body) : Trivia true ('/' :: '/' :: body)

/-- The characters that are written between quotes, and those that they stand for. -/
inductive Unescapes : List Char → List Char → Prop
  | nil : Unescapes [] []
  | plain {c : Char} {cs ds : List Char} (hquote : c ≠ '\x22') (hslash : c ≠ '\x5c')
      (hline : c ≠ '\n') (h : Unescapes cs ds) : Unescapes (c :: cs) (c :: ds)
  | lineFeed {cs ds : List Char} (h : Unescapes cs ds) :
      Unescapes ('\x5c' :: 'n' :: cs) ('\n' :: ds)
  | tab {cs ds : List Char} (h : Unescapes cs ds) : Unescapes ('\x5c' :: 't' :: cs) ('\t' :: ds)
  | quote {cs ds : List Char} (h : Unescapes cs ds) :
      Unescapes ('\x5c' :: '\x22' :: cs) ('\x22' :: ds)
  | backslash {cs ds : List Char} (h : Unescapes cs ds) :
      Unescapes ('\x5c' :: '\x5c' :: cs) ('\x5c' :: ds)

/-- A token is what a span says that `rest` follows. -/
structure TokenOf (mode : Mode) (span rest : List Char) (t : Token) : Prop where
  text : t.type ≠ .string → t.text.toList = span
  /-- A string literal is its contents between quotes. -/
  contents : t.type = .string →
    ∃ body, span = '\x22' :: (body ++ ['\x22']) ∧ Unescapes body t.text.toList
  keyword : t.type = .keyword → t.text ∈ keywords
  /-- A mark of a rule body is the bar, or a literal between backticks. -/
  mark : t.type = .special →
    mode = .ruleBody ∧ (span = ['|'] ∨ ∃ contents, span = backtick :: (contents ++ [backtick]))
  /-- No character that could extend a name or keyword follows it. -/
  complete : t.type = .identifier ∨ t.type = .keyword →
    ∀ c ∈ rest.head?, continuesName mode c = false
  /-- An operator is the longest one that begins at its place. -/
  longest : t.type = .operator → t.text ∈ operators ∧
    ∀ op ∈ operators, op.toList <+: span ++ rest → op.length ≤ t.text.length

/-- What a lexeme takes of its text. -/
def Lexeme.written (l : Lexeme) : List Char := l.trivia ++ l.span

/-- What lexemes take of their text. -/
def written (ls : List Lexeme) : List Char := ls.flatMap Lexeme.written

/-- **A text that stands behind `before` is cut into lexemes.** -/
structure Segmentation (mode : Mode) (before text : List Char) (ls : List Lexeme) : Prop where
  /-- There are no more lexemes than characters. -/
  length_le : ls.length ≤ text.length
  /-- The text is what the lexemes take of it, and trivia at the end. -/
  cut : ∃ unended last, Trivia unended last ∧ text = written ls ++ last
  /-- Between spans there is white space, and comments that are ended. -/
  trivia : ∀ l ∈ ls, Trivia false l.trivia
  span_ne_nil : ∀ l ∈ ls, l.span ≠ []
  /-- A token is what its span says, and its position is that of the span. -/
  token : ∀ earlier l later, ls = earlier ++ l :: later → ∀ t, l.outcome = .ok t →
    ∃ rest, text = written earlier ++ l.trivia ++ l.span ++ rest ∧ TokenOf mode l.span rest t ∧
      t.position.line = 1 + (before ++ written earlier ++ l.trivia).count '\n' ∧
      t.position.column =
        1 + ((before ++ written earlier ++ l.trivia).reverse.takeWhile (· ≠ '\n')).length

/-! ### White space and comments -/

lemma Trivia.extend {unended : Bool} {c : Char} {cs : List Char} (hc : c ≠ '\n')
    (h : Trivia unended ('/' :: '/' :: cs)) : Trivia unended ('/' :: '/' :: c :: cs) := by
  have hbody : ∀ body : List Char, '\n' ∉ body → '\n' ∉ c :: body := fun body hb => by
    simp [hb, Ne.symm hc]
  cases h with
  | white hslash => exact absurd hslash (by decide +kernel)
  | @comment _ body cs h hs => exact .comment (hbody body h) hs
  | unended h => exact .unended (hbody cs h)

/-- What is split off is trivia; in an open comment it is so with the slashes before it. -/
lemma splitTrivia_trivia (inside : Bool) (cs : List Char) :
    ∃ unended, Trivia unended ((if inside then ['/', '/'] else []) ++ (splitTrivia inside cs).1) ∧
      (unended = true → (splitTrivia inside cs).2 = []) := by
  fun_induction splitTrivia inside cs with
  | case1 inside =>
    cases inside with
    | false => exact ⟨false, .nil, fun _ => rfl⟩
    | true => exact ⟨true, .unended (by simp), fun _ => rfl⟩
  | case2 inside cs t r hsplit ih =>
    obtain ⟨unended, h, hend⟩ := ih
    simp only [hsplit, if_true, List.cons_append, List.nil_append] at h hend ⊢
    refine ⟨unended, ?_, hend⟩
    cases inside with
    | false => exact h
    | true => exact (h.extend (by decide)).extend (by decide)
  | case3 c cs hslash t r hsplit ih =>
    obtain ⟨unended, h, hend⟩ := ih
    simp only [hsplit] at h hend ⊢
    refine ⟨unended, ?_, hend⟩
    by_cases hc : c = '\n'
    · subst hc
      exact .comment List.not_mem_nil (by simpa using h)
    · exact .extend hc (by simpa [hc] using h)
  | case4 inside c cs _ hinside hc t r hsplit ih =>
    obtain ⟨unended, h, hend⟩ := ih
    simp only [hsplit] at h hend ⊢
    exact ⟨unended, by simpa [hinside] using Trivia.white hc h, hend⟩
  | case5 inside c cs _ hinside hc =>
    exact ⟨false, by simpa [hinside] using Trivia.nil, by simp⟩

/-! ### Spans -/

lemma Unescapes.escape {e c : Char} {cs ds : List Char} (he : unescape? e = some c)
    (h : Unescapes cs ds) : Unescapes ('\x5c' :: e :: cs) (c :: ds) := by
  unfold unescape? at he
  split at he <;> cases he
  · exact .lineFeed h
  · exact .tab h
  · exact .quote h
  · exact .backslash h

lemma exists_of_map_eq_ok {ε α β : Type} {f : α → β} {r : Except ε α} {b : β}
    (h : r.map f = .ok b) : ∃ a, r = .ok a ∧ f a = b := by
  cases r with
  | error e => cases h
  | ok a => exact ⟨a, rfl, Except.ok.inj h⟩

/-- What is read up to a closing quote stands for the contents. -/
lemma unescapes_scanContents {start p : Position} {cs text : List Char}
    (h : (scanContents start p cs).2.2 = .ok text) :
    ∃ body, (scanContents start p cs).1 = body ++ ['\x22'] ∧ Unescapes body text := by
  fun_induction scanContents start p cs generalizing text with
  | case1 => cases h
  | case2 p e cs c hescape span rest outcome hscan ih =>
    rw [hscan] at ih
    obtain ⟨text', htext', rfl⟩ := exists_of_map_eq_ok h
    obtain ⟨body, hbody, hs⟩ := ih htext'
    exact ⟨_, congrArg ('\x5c' :: e :: ·) hbody, .escape hescape hs⟩
  | case3 => cases h
  | case4 => cases h
  | case5 =>
    cases h
    exact ⟨[], rfl, .nil⟩
  | case6 p c cs _ hc hquote span rest outcome hscan ih =>
    rw [hscan] at ih
    obtain ⟨text', htext', rfl⟩ := exists_of_map_eq_ok h
    obtain ⟨body, hbody, hs⟩ := ih htext'
    rw [not_or] at hc
    exact ⟨_, congrArg (c :: ·) hbody, .plain hquote hc.2 hc.1 hs⟩

/-- The token of a lexeme at a position, if it is one, is what its span says. -/
def Scanned.Faithful (mode : Mode) (p : Position) (s : Scanned) : Prop :=
  ∀ t, s.outcome = .ok t → t.position = p ∧ TokenOf mode s.span s.rest t

variable {mode : Mode} {p : Position} {c : Char} {span rest cs : List Char}

lemma faithful_error {e : LexError} : Scanned.Faithful mode p ⟨span, rest, .error e⟩ := nofun

/-- Numbers and punctuation say no more than their texts. -/
lemma faithful_ofList {type : TokenType}
    (htype : type = .integer ∨ type = .float ∨ type = .punctuation) :
    Scanned.Faithful mode p ⟨span, rest, .ok ⟨type, String.ofList span, p⟩⟩ := by
  rintro t ⟨⟩
  refine ⟨rfl, ⟨fun _ => String.toList_ofList, ?_, ?_, ?_, ?_, ?_⟩⟩
  all_goals
    intro h
    rcases htype with rfl | rfl | rfl <;> simp at h

/-- So do the marks of rule bodies. -/
lemma faithful_special
    (hspan : span = ['|'] ∨ ∃ contents, span = backtick :: (contents ++ [backtick])) :
    Scanned.Faithful .ruleBody p ⟨span, rest, .ok ⟨.special, String.ofList span, p⟩⟩ := by
  rintro t ⟨⟩
  exact ⟨rfl, ⟨fun _ => String.toList_ofList, by simp, by simp, fun _ => ⟨rfl, hspan⟩, by simp,
    by simp⟩⟩

lemma faithful_scanNumber : (scanNumber p cs).Faithful mode p := by
  unfold scanNumber
  dsimp only
  split
  · split
    · exact faithful_ofList (by simp)
    · exact faithful_ofList (by simp)
  · exact faithful_ofList (by simp)

lemma faithful_scanString : (scanString p '\x22' cs).Faithful mode p := by
  intro t ht
  obtain ⟨text, htext, rfl⟩ := exists_of_map_eq_ok ht
  obtain ⟨body, hbody, hs⟩ := unescapes_scanContents htext
  refine ⟨rfl, ⟨by simp, fun _ => ⟨body, congrArg ('\x22' :: ·) hbody, ?_⟩, by simp, by simp,
    by simp, by simp⟩⟩
  rwa [String.toList_ofList]

lemma faithful_scanLiteral : (scanLiteral p backtick cs).Faithful .ruleBody p := by
  unfold scanLiteral
  dsimp only
  split
  · split
    · next hc =>
      subst hc
      exact faithful_special (.inr ⟨_, rfl⟩)
    · exact faithful_error
  · exact faithful_error

lemma faithful_scanWord : (scanWord mode p c cs).Faithful mode p := by
  rintro t ⟨⟩
  have htype : ∀ b : Prop, ∀ _ : Decidable b, ∀ type ∈ [TokenType.string, .operator, .special],
      (if b then TokenType.keyword else .identifier) ≠ type := by
    intro b _ type htype
    split <;> rintro rfl <;> simp at htype
  refine ⟨rfl, ⟨fun _ => String.toList_ofList, fun h => ?_, fun h => ?_, fun h => ?_,
    fun _ d hd => ?_, fun h => ?_⟩⟩
  · exact absurd h (htype _ _ _ (by simp))
  · by_contra hmem
    rw [if_neg hmem] at h
    cases h
  · exact absurd h (htype _ _ _ (by simp))
  · have h := List.head?_dropWhile_not (continuesName mode) cs
    rwa [show (cs.dropWhile (continuesName mode)).head? = some d from hd] at h
  · exact absurd h (htype _ _ _ (by simp))

/-- The operators are tried from long to short. -/
lemma operators_pairwise : operators.Pairwise fun op op' => op'.length ≤ op.length := by decide

/-- An operator that is found is the longest one at its place. -/
lemma longest_operatorAt? {op : String} (h : operatorAt? cs = some op) :
    op ∈ operators ∧ op.toList <+: cs ∧
      ∀ op' ∈ operators, op'.toList <+: cs → op'.length ≤ op.length := by
  obtain ⟨hop, before, after, hall, hbefore⟩ := List.find?_eq_some_iff_append.mp h
  refine ⟨List.mem_of_find?_eq_some h, List.isPrefixOf_iff_prefix.mp hop, fun op' hop' hcs => ?_⟩
  have hpairs := operators_pairwise
  rw [hall] at hop' hpairs
  rcases List.mem_append.mp hop' with hop' | hop'
  · have := hbefore op' hop'
    simp [List.isPrefixOf_iff_prefix.mpr hcs] at this
  · rcases List.mem_cons.mp hop' with rfl | hop'
    · exact le_rfl
    · exact List.rel_of_pairwise_cons (List.pairwise_append.mp hpairs).2.1 hop'

lemma faithful_scanMark : (scanMark p c cs).Faithful mode p := by
  unfold scanMark
  split
  · next op hop =>
    obtain ⟨hmem, ⟨rest, hrest⟩, hlongest⟩ := longest_operatorAt? hop
    have hspan : op.toList = c :: cs.take (op.toList.length - 1) := by
      have hne : ∀ op ∈ operators, op.toList ≠ [] := by decide
      obtain ⟨d, ds, hd⟩ := List.exists_cons_of_ne_nil (hne op hmem)
      rw [hd] at hrest
      cases hrest
      simp [hd]
    rintro t ⟨⟩
    refine ⟨rfl, ⟨fun _ => hspan, by simp, by simp, by simp, by simp, fun _ => ⟨hmem, ?_⟩⟩⟩
    rwa [List.cons_append, List.take_append_drop]
  · split
    · rw [String.singleton_eq_ofList]
      exact faithful_ofList (by simp)
    · exact faithful_error

/-- The token of a lexeme is what its span says. -/
lemma faithful_scan (mode : Mode) (p : Position) (c : Char) (cs : List Char) :
    (scan mode p c cs).Faithful mode p := by
  unfold scan
  split
  · exact faithful_scanNumber
  · split
    · next hquote =>
      subst hquote
      exact faithful_scanString
    · split
      · next hquote =>
        obtain ⟨rfl, rfl⟩ := hquote
        exact faithful_scanLiteral
      · split
        · next hbar =>
          obtain ⟨rfl, rfl⟩ := hbar
          exact faithful_special (.inl rfl)
        · split
          · exact faithful_scanWord
          · exact faithful_scanMark

/-! ### Whole texts -/

lemma written_cons (l : Lexeme) (ls : List Lexeme) :
    written (l :: ls) = l.trivia ++ l.span ++ written ls := List.flatMap_cons

/-- Trivia are cut into no lexemes. -/
lemma segmentation_nil {before last : List Char} {unended : Bool} (h : Trivia unended last) :
    Segmentation mode before last [] where
  length_le := Nat.zero_le _
  cut := ⟨unended, last, h, rfl⟩
  trivia := by simp
  span_ne_nil := by simp
  token earlier l later h := by simp at h

/-- A lexeme stands before what is cut behind it. -/
lemma Segmentation.cons {before : List Char} {l : Lexeme} {ls : List Lexeme}
    (htrivia : Trivia false l.trivia) (hspan : l.span ≠ [])
    (htoken : ∀ t, l.outcome = .ok t →
      t.position = Position.start.after (before ++ l.trivia) ∧ TokenOf mode l.span rest t)
    (h : Segmentation mode (before ++ l.trivia ++ l.span) rest ls) :
    Segmentation mode before (l.trivia ++ l.span ++ rest) (l :: ls) where
  length_le := by
    have := List.length_pos_iff.mpr hspan
    have := h.length_le
    simp only [List.length_cons, List.length_append]
    omega
  cut := by
    obtain ⟨unended, last, hlast, hrest⟩ := h.cut
    exact ⟨unended, last, hlast, by rw [written_cons, hrest, List.append_assoc _ (written ls)]⟩
  trivia := List.forall_mem_cons.mpr ⟨htrivia, h.trivia⟩
  span_ne_nil := List.forall_mem_cons.mpr ⟨hspan, h.span_ne_nil⟩
  token := by
    intro earlier l' later hls t ht
    cases earlier with
    | nil =>
      cases hls
      obtain ⟨hposition, hof⟩ := htoken t ht
      rw [hposition, Position.line_after, Position.column_after]
      exact ⟨rest, by simp [written], hof, by simp [written], by simp [written]⟩
    | cons k earlier =>
      cases hls
      obtain ⟨rest', hrest, hof, hline, hcolumn⟩ := h.token earlier l' later rfl t ht
      refine ⟨rest', ?_, hof, ?_, ?_⟩
      · rw [hrest, written_cons]
        simp only [List.append_assoc]
      · rw [hline, written_cons]
        simp only [List.append_assoc]
      · rw [hcolumn, written_cons]
        simp only [List.append_assoc]

/-- What stands behind some text is cut into its lexemes. -/
lemma segmentation_lexemes (mode : Mode) (before cs : List Char) :
    Segmentation mode before cs (lexemes mode (Position.start.after before) cs) := by
  induction h : cs.length using Nat.strong_induction_on generalizing before cs with
  | _ n ih =>
    obtain ⟨unended, htrivia, hend⟩ := splitTrivia_trivia false cs
    have hcs := splitTrivia_append false cs
    rw [lexemes]
    split
    · next trivia hsplit =>
      simp only [hsplit] at htrivia hcs
      rw [← hcs, List.append_nil]
      exact segmentation_nil htrivia
    · next trivia c rest hsplit =>
      simp only [hsplit, Bool.false_eq_true, if_false, List.nil_append] at htrivia hcs hend
      obtain rfl : unended = false := by simpa using hend
      dsimp only
      have hscan := scan_append mode ((Position.start.after before).after trivia) c rest
      have hlength := length_rest_scan_lt mode ((Position.start.after before).after trivia) c rest
      have htoken := faithful_scan mode ((Position.start.after before).after trivia) c rest
      have hspan := scan_span_ne_nil mode ((Position.start.after before).after trivia) c rest
      generalize scan mode ((Position.start.after before).after trivia) c rest = s
        at hscan hlength htoken hspan ⊢
      have hshorter : s.rest.length < n := by
        rw [← h, ← hcs, List.length_append]
        omega
      rw [← hcs, ← hscan, ← List.append_assoc]
      refine .cons (l := ⟨trivia, s.span, _, s.outcome⟩) htrivia hspan ?_ ?_
      · rwa [Position.after_append]
      · rw [← Position.after_append, ← Position.after_append]
        exact ih _ hshorter _ _ rfl

/-- **Every text is cut faithfully**, in both modes: the lexer gives one item for each of its
lexemes, tokens and faults alike, and these make up the text. -/
theorem lexemes_segmentation (mode : Mode) (text : String) :
    items mode text = (lexemes mode .start text.toList).map (·.outcome) ∧
      Segmentation mode [] text.toList (lexemes mode .start text.toList) :=
  ⟨rfl, segmentation_lexemes mode [] text.toList⟩

end Lexer

end Coscript
