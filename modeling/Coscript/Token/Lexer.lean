import Coscript.Text.CharClass
import Coscript.Text.Quoted
import Coscript.Token.Basic

/-!
# The lexer

Source text is cut into lexemes: a run of white space and comments that is passed over, the span
of characters that makes up the lexeme, and the token that the span stands for or the fault in it.
The lexer goes on after a fault, so that every text is cut completely.

* `Lexer.splitTrivia_append`, `Lexer.scan_append`: nothing is lost between the lexemes;
* `Lexer.scan_span_ne_nil`: every lexeme takes at least one character.

There are two modes. Scripts are read in mode `script`. The bodies of grammar rules are read in mode
`ruleBody`, which also knows literals between backticks and the bar between alternatives, and lets
names end in primes.
-/

namespace Coscript

/-- Why a span of characters is no token. -/
inductive LexError
  | invalidChar (c : Char) (position : Position)
  /-- The position is that of the opening quote. -/
  | unterminatedString (position : Position)
  /-- The position is that of the character after the backslash. -/
  | invalidEscape (c : Char) (position : Position)
  deriving Repr, DecidableEq

namespace LexError

/-- The place of the fault. -/
def position : LexError → Position
  | invalidChar _ p => p
  | unterminatedString p => p
  | invalidEscape _ p => p

/-- The text of the fault. -/
def message : LexError → String
  | invalidChar c p => s!"invalid character {Quoted.char c} at {p.line}:{p.column}"
  | unterminatedString p => s!"unterminated string starting at {p.line}:{p.column}"
  | invalidEscape c p => "invalid escape \\" ++ s!"{c} at {p.line}:{p.column}"

end LexError

namespace Lexer

/-- What is being read. -/
inductive Mode
  | script
  | ruleBody
  deriving Repr, DecidableEq

/-- Words that are no names. -/
def keywords : List String := ["function", "var", "if", "else", "while", "return"]

/-- The operators; one that begins another comes after it. -/
def operators : List String :=
  ["==", "!=", "<=", ">=", "&&", "||", "+", "-", "*", "/", "%", "<", ">", "!", "="]

/-- The punctuation characters. -/
def punctuation : List Char := ['(', ')', '\x7b', '\x7d', ',', ';']

/-- A backtick, which encloses the literals of rule bodies. -/
def backtick : Char := '\x60'

/-! ### White space and comments -/

/-- Splits off the white space and comments at the beginning. A comment runs from two slashes to
the end of its line; `inside` says that one is open. -/
def splitTrivia (inside : Bool) : List Char → List Char × List Char
  | [] => ([], [])
  | '/' :: '/' :: cs =>
    let (t, r) := splitTrivia true cs
    ('/' :: '/' :: t, r)
  | c :: cs =>
    if inside then
      let (t, r) := splitTrivia (c ≠ '\n') cs
      (c :: t, r)
    else if CharClass.isWhite c then
      let (t, r) := splitTrivia false cs
      (c :: t, r)
    else ([], c :: cs)

theorem splitTrivia_append (inside : Bool) (cs : List Char) :
    (splitTrivia inside cs).1 ++ (splitTrivia inside cs).2 = cs := by
  fun_induction splitTrivia inside cs <;> simp_all

/-! ### Spans -/

/-- The span of one lexeme, what follows it, and what it stands for. -/
structure Scanned where
  span : List Char
  rest : List Char
  outcome : Except LexError Token

/-- Digits, and a point with more digits if they follow. -/
def scanNumber (p : Position) (cs : List Char) : Scanned :=
  let whole := cs.takeWhile CharClass.isDigit
  let rest := cs.dropWhile CharClass.isDigit
  match rest with
  | '.' :: d :: ds =>
    if CharClass.isDigit d then
      let span := whole ++ '.' :: (d :: ds).takeWhile CharClass.isDigit
      ⟨span, (d :: ds).dropWhile CharClass.isDigit, .ok ⟨.float, String.ofList span, p⟩⟩
    else ⟨whole, rest, .ok ⟨.integer, String.ofList whole, p⟩⟩
  | _ => ⟨whole, rest, .ok ⟨.integer, String.ofList whole, p⟩⟩

/-- The character that an escape stands for. -/
def unescape? : Char → Option Char
  | 'n' => some '\n'
  | 't' => some '\t'
  | '\x22' => some '\x22'
  | '\x5c' => some '\x5c'
  | _ => none

/-- The contents of a string literal after its opening quote: the span up to the closing quote or
to the fault, what follows, and the characters that the span stands for. The literal began at
`start`, and the contents begin at `p`. -/
def scanContents (start p : Position) :
    List Char → List Char × List Char × Except LexError (List Char)
  | [] => ([], [], .error (.unterminatedString start))
  | '\x5c' :: e :: cs =>
    match unescape? e with
    | some c =>
      let (span, rest, outcome) := scanContents start ((p.next '\x5c').next e) cs
      ('\x5c' :: e :: span, rest, outcome.map (c :: ·))
    | none => (['\x5c', e], cs, .error (.invalidEscape e (p.next '\x5c')))
  | c :: cs =>
    if c = '\n' ∨ c = '\x5c' then ([c], cs, .error (.unterminatedString start))
    else if c = '\x22' then ([c], cs, .ok [])
    else
      let (span, rest, outcome) := scanContents start (p.next c) cs
      (c :: span, rest, outcome.map (c :: ·))

/-- A string literal that begins with the quote `q`. -/
def scanString (p : Position) (q : Char) (cs : List Char) : Scanned :=
  let (span, rest, outcome) := scanContents p (p.next q) cs
  ⟨q :: span, rest, outcome.map fun text => ⟨.string, String.ofList text, p⟩⟩

/-- A literal of a rule body that begins with the backtick `q`; it ends on the same line. -/
def scanLiteral (p : Position) (q : Char) (cs : List Char) : Scanned :=
  let inner := cs.takeWhile fun c => c ≠ backtick && c ≠ '\n'
  match cs.dropWhile fun c => c ≠ backtick && c ≠ '\n' with
  | c :: rest =>
    if c = backtick then
      let span := q :: inner ++ [c]
      ⟨span, rest, .ok ⟨.special, String.ofList span, p⟩⟩
    else ⟨q :: inner, c :: rest, .error (.unterminatedString p)⟩
  | [] => ⟨q :: inner, [], .error (.unterminatedString p)⟩

/-- What may begin a name. -/
def startsName (c : Char) : Bool := CharClass.isAlphabetic c || c == '_'

/-- What may follow in a name. -/
def continuesName (mode : Mode) (c : Char) : Bool :=
  CharClass.isAlphanumeric c || c == '_' || (mode == .ruleBody && c == '\x27')

/-- A name or keyword that begins with `c`. -/
def scanWord (mode : Mode) (p : Position) (c : Char) (cs : List Char) : Scanned :=
  let span := c :: cs.takeWhile (continuesName mode)
  let text := String.ofList span
  ⟨span, cs.dropWhile (continuesName mode),
    .ok ⟨if text ∈ keywords then .keyword else .identifier, text, p⟩⟩

/-- The first operator in the list that the text begins with. -/
def operatorAt? (cs : List Char) : Option String :=
  operators.find? fun op => op.toList.isPrefixOf cs

/-- An operator, a punctuation character, or a character that begins no token. -/
def scanMark (p : Position) (c : Char) (cs : List Char) : Scanned :=
  match operatorAt? (c :: cs) with
  | some op =>
    let n := op.toList.length - 1
    ⟨c :: cs.take n, cs.drop n, .ok ⟨.operator, op, p⟩⟩
  | none =>
    if c ∈ punctuation then ⟨[c], cs, .ok ⟨.punctuation, String.singleton c, p⟩⟩
    else ⟨[c], cs, .error (.invalidChar c p)⟩

/-- The lexeme at position `p` of a text that begins with `c`. -/
def scan (mode : Mode) (p : Position) (c : Char) (cs : List Char) : Scanned :=
  if CharClass.isDigit c then scanNumber p (c :: cs)
  else if c = '\x22' then scanString p c cs
  else if mode = .ruleBody ∧ c = backtick then scanLiteral p c cs
  else if mode = .ruleBody ∧ c = '|' then ⟨[c], cs, .ok ⟨.special, "|", p⟩⟩
  else if startsName c then scanWord mode p c cs
  else scanMark p c cs

theorem scanContents_append (start p : Position) (cs : List Char) :
    (scanContents start p cs).1 ++ (scanContents start p cs).2.1 = cs := by
  fun_induction scanContents start p cs <;> simp_all

theorem scanNumber_append (p : Position) (cs : List Char) :
    (scanNumber p cs).span ++ (scanNumber p cs).rest = cs := by
  have h := List.takeWhile_append_dropWhile (p := CharClass.isDigit) (l := cs)
  unfold scanNumber
  simp only
  split
  · next d ds hd =>
    have h' := List.takeWhile_append_dropWhile (p := CharClass.isDigit) (l := d :: ds)
    rw [hd] at h
    split
    · simp only [List.append_assoc, List.cons_append, h']
      exact h
    · rw [← hd] at h
      exact h
  · exact h

/-- A lexeme's span and what follows it make up the text. -/
theorem scan_append (mode : Mode) (p : Position) (c : Char) (cs : List Char) :
    (scan mode p c cs).span ++ (scan mode p c cs).rest = c :: cs := by
  unfold scan
  split
  · exact scanNumber_append p (c :: cs)
  · split
    · simp [scanString, scanContents_append]
    · split
      · have h := List.takeWhile_append_dropWhile
          (p := fun x => decide (x ≠ backtick) && decide (x ≠ '\n')) (l := cs)
        unfold scanLiteral
        simp only
        split
        · next x r hr =>
          rw [hr] at h
          split <;> simpa using h
        · next hr =>
          rw [hr] at h
          simpa using h
      · split
        · rfl
        · split
          · simp [scanWord]
          · unfold scanMark
            split
            · simp
            · split <;> rfl

/-- A lexeme takes at least one character. -/
theorem scan_span_ne_nil (mode : Mode) (p : Position) (c : Char) (cs : List Char) :
    (scan mode p c cs).span ≠ [] := by
  unfold scan
  split
  · next h =>
    unfold scanNumber
    have hd : (c :: cs).takeWhile CharClass.isDigit ≠ [] := by
      simp [h]
    simp only
    split
    · split
      · simp
      · exact hd
    · exact hd
  · split
    · simp [scanString]
    · split
      · unfold scanLiteral
        simp only
        split
        · split <;> simp
        · simp
      · split
        · simp
        · split
          · simp [scanWord]
          · unfold scanMark
            split
            · simp
            · split <;> simp

/-- What follows a lexeme is shorter than the text. -/
theorem length_rest_scan_lt (mode : Mode) (p : Position) (c : Char) (cs : List Char) :
    (scan mode p c cs).rest.length < (c :: cs).length := by
  have h := congrArg List.length (scan_append mode p c cs)
  have := List.length_pos_iff.mpr (scan_span_ne_nil mode p c cs)
  rw [List.length_append] at h
  omega

/-! ### Whole texts -/

/-- A piece of a text: what is passed over before it, its span, where the span begins, and the
token or fault that it stands for. -/
structure Lexeme where
  trivia : List Char
  span : List Char
  position : Position
  outcome : Except LexError Token

/-- The lexemes of a text that begins at a position. -/
def lexemes (mode : Mode) (p : Position) (cs : List Char) : List Lexeme :=
  match _h : splitTrivia false cs with
  | (_, []) => []
  | (trivia, c :: rest) =>
    let q := p.after trivia
    let s := scan mode q c rest
    ⟨trivia, s.span, q, s.outcome⟩ :: lexemes mode (q.after s.span) s.rest
termination_by cs.length
decreasing_by
  have h1 := congrArg List.length (splitTrivia_append false cs)
  have h2 := length_rest_scan_lt mode (p.after trivia) c rest
  rw [_h, List.length_append] at h1
  simp only at h1
  omega

/-- The tokens and faults of a text in their order. -/
def items (mode : Mode) (text : String) : List (Except LexError Token) :=
  (lexemes mode .start text.toList).map (·.outcome)

/-- The tokens of a text, or its first fault. -/
def tokenize (mode : Mode) (text : String) : Except LexError (List Token) :=
  (items mode text).mapM id

end Lexer

end Coscript
