import Coscript.Grammar.Basic
import Coscript.Text.Line

/-!
# Rule bodies

The text of a rule body is cut into tokens and read as a sequence of slots. A slot lists the
elements that may stand in its place:

* a literal between backticks, which must hold exactly one token of the language;
* the name of a token type or of a symbol;
* names of token types with bars between them;
* `()` for the empty element.

A body means one rule for each choice of one element per slot, in lexicographic order.
-/

namespace Coscript.RuleBody

/-- Whether a token is the bar between alternatives. -/
def isBar (t : Token) : Bool := t.type = .special && t.text = "|"

/-- The terminal that a literal stands for. -/
def literal (text : String) : Except GrammarError Terminal :=
  match Lexer.tokenize .script text with
  | .error e => .error (.invalidLiteral text (.lexical e))
  | .ok [t] => .ok (.literal t.type t.text)
  | .ok _ => .error (.invalidLiteral text .notOneToken)

/-- The names after the first of an alternation, and the tokens that follow it. -/
def operands (first : String) : List Token → Except GrammarError (List String × List Token)
  | [] => .ok ([], [])
  | [t] => if isBar t then .error (.invalidLiteral first .noRightOperand) else .ok ([], [t])
  | t :: u :: ts =>
    if isBar t then
      if u.type = .identifier then do
        let (names, rest) ← operands first ts
        return (u.text :: names, rest)
      else .error (.invalidLiteral first .noRightOperand)
    else .ok ([], t :: u :: ts)

/-- The element for the name of a token type in an alternation. -/
def alternative (name : String) : Except GrammarError Element :=
  match TokenType.ofName? name with
  | some type => .ok (.terminal (.any type))
  | none => .error (.invalidLiteral name .notATokenType)

/-- The slot that begins with the token `t`, and the tokens that follow it, in a rule of the symbol
`rule` of a grammar with the given symbols. -/
def slot (rule : String) (isSymbol : String → Bool) (t : Token) (ts : List Token) :
    Except GrammarError (List Element × List Token) :=
  match t.type with
  | .special =>
    if t.text = "|" then .error (.invalidLiteral "|" .noLeftOperand)
    else do
      let terminal ← literal (String.ofList (t.text.toList.drop 1).dropLast)
      return ([.terminal terminal], ts)
  | .punctuation =>
    if t.text = "(" then
      match ts with
      | u :: rest =>
        if u.text = ")" then .ok ([.empty], rest) else .error (.invalidLiteral "(" .unclosedEmpty)
      | [] => .error (.invalidLiteral "(" .unclosedEmpty)
    else .error (.invalidLiteral t.text .unquoted)
  | .identifier | .keyword =>
    match ts with
    | [] => single t.text
    | u :: _ =>
      if isBar u then do
        let (names, rest) ← operands t.text ts
        let elements ← (t.text :: names).mapM alternative
        return (elements, rest)
      else single t.text
  | _ => .error (.invalidLiteral t.text .unquoted)
where
  /-- A name on its own: a token type if it names one, else a symbol. -/
  single (name : String) : Except GrammarError (List Element × List Token) :=
    match TokenType.ofName? name with
    | some type => .ok ([.terminal (.any type)], ts)
    | none =>
      if isSymbol name then .ok ([.nonTerminal name], ts)
      else .error (.undefinedSymbol name rule)

theorem length_operands_le {first : String} {ts rest : List Token} {names : List String}
    (h : operands first ts = .ok (names, rest)) : rest.length ≤ ts.length := by
  fun_induction operands first ts generalizing names rest with
  | case1 => simp_all
  | case2 => simp at h
  | case3 => simp_all
  | case4 t u ts _ _ ih =>
    cases ho : operands first ts with
    | error e => simp [ho, bind, Except.bind] at h
    | ok r =>
      obtain ⟨ns, r⟩ := r
      have := ih ho
      simp only [ho, bind, Except.bind, pure, Except.pure, Except.ok.injEq, Prod.mk.injEq] at h
      simp only [List.length_cons]
      rw [← h.2]
      omega
  | case5 => simp at h
  | case6 => simp_all

/-- A slot leaves no more tokens than follow its first one. -/
theorem length_slot_le {rule : String} {isSymbol : String → Bool} {t : Token}
    {ts rest : List Token} {elements : List Element}
    (h : slot rule isSymbol t ts = .ok (elements, rest)) : rest.length ≤ ts.length := by
  have single : ∀ {us : List Token} {name r}, slot.single rule isSymbol us name = .ok r →
      r.2 = us := by
    intro us name r hs
    unfold slot.single at hs
    split at hs
    · cases hs
      rfl
    · split at hs
      · cases hs
        rfl
      · cases hs
  have alternation : ∀ {us : List Token} {r : List Element × List Token},
      (do
        let (names, rest) ← operands t.text us
        let elements ← (t.text :: names).mapM alternative
        return (elements, rest) : Except GrammarError _) = .ok r → r.2.length ≤ us.length := by
    intro us r ha
    cases ho : operands t.text us with
    | error e => simp [ho, bind, Except.bind] at ha
    | ok q =>
      simp only [ho, bind, Except.bind, pure, Except.pure] at ha
      split at ha
      · cases ha
      · cases ha
        exact length_operands_le ho
  have whole : ∀ {us : List Token}, slot.single rule isSymbol us t.text = .ok (elements, rest) →
      rest.length ≤ us.length := fun hs => Nat.le_of_eq (congrArg List.length (single hs))
  unfold slot at h
  split at h
  · split at h
    · cases h
    · generalize literal _ = l at h
      cases l with
      | error e => cases h
      | ok r =>
        cases h
        exact Nat.le_refl _
  · split at h
    · split at h
      · split at h
        · cases h
          simp
        · cases h
      · cases h
    · cases h
  · split at h
    · exact whole h
    · split at h
      · exact alternation h
      · exact whole h
  · split at h
    · exact whole h
    · split at h
      · exact alternation h
      · exact whole h
  · cases h

/-- The slots of a sequence of tokens. -/
def slots (rule : String) (isSymbol : String → Bool) :
    List Token → Except GrammarError (List (List Element))
  | [] => .ok []
  | t :: ts =>
    match _h : slot rule isSymbol t ts with
    | .error e => .error e
    | .ok (elements, rest) => do
      let more ← slots rule isSymbol rest
      return elements :: more
termination_by ts => ts.length
decreasing_by
  have := length_slot_le _h
  simp only [List.length_cons]
  omega

/-- All choices of one element per slot, in lexicographic order. -/
def choices : List (List Element) → List (List Element)
  | [] => [[]]
  | slot :: slots => slot.flatMap fun e => (choices slots).map (e :: ·)

/-- The rules that a rule body means. -/
def parse (rule text : String) (isSymbol : String → Bool) :
    Except GrammarError (List (List Element)) :=
  match Lexer.tokenize .ruleBody text with
  | .error e =>
    .error (.invalidLiteral (String.ofList (Line.trim text.toList)) (.lexical e))
  | .ok tokens => (slots rule isSymbol tokens).map choices

end Coscript.RuleBody
