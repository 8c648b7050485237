/-!
# Tokens

The pieces that source text is cut into, with the line and column where each begins.
-/

namespace Coscript

/-- The kinds of tokens. `special` stands outside the language: only the marks of rule bodies have
it. -/
inductive TokenType
  | identifier
  | keyword
  | integer
  | float
  | string
  | operator
  | punctuation
  | special
  deriving Repr, DecidableEq

namespace TokenType

/-- The name of a kind, as grammars write it. -/
def name : TokenType → String
  | identifier => "Identifier"
  | keyword => "Keyword"
  | integer => "Integer"
  | float => "Float"
  | string => "String"
  | operator => "Operator"
  | punctuation => "Punctuation"
  | special => "Special"

/-- The kinds that a grammar may name. -/
def named : List TokenType :=
  [identifier, keyword, integer, float, string, operator, punctuation]

/-- The kind that a grammar means by a name. -/
def ofName? (s : String) : Option TokenType := named.find? (·.name = s)

/-- The number of a kind. -/
def toNat : TokenType → Nat
  | identifier => 0
  | keyword => 1
  | integer => 2
  | float => 3
  | string => 4
  | operator => 5
  | punctuation => 6
  | special => 7

/-- The kind with a number. -/
def ofNat? (n : Nat) : Option TokenType := (named ++ [special])[n]?

/-- A kind is the one with its number. -/
theorem ofNat?_toNat (t : TokenType) : ofNat? t.toNat = some t := by
  cases t <;> rfl

/-- A kind that grammars may name is the one with its name. -/
theorem ofName?_name {t : TokenType} (h : t ∈ named) : ofName? t.name = some t := by
  cases t <;> first | rfl | simp [named] at h

end TokenType

/-- A place in a text; lines and columns count from one. -/
structure Position where
  line : Nat
  column : Nat
  deriving Repr, DecidableEq

namespace Position

/-- The place where texts begin. -/
def start : Position := ⟨1, 1⟩

/-- The place after a character. -/
def next (p : Position) (c : Char) : Position :=
  if c = '\n' then ⟨p.line + 1, 1⟩ else ⟨p.line, p.column + 1⟩

/-- The place after a run of characters. -/
def after (p : Position) (cs : List Char) : Position := cs.foldl next p

end Position

/-- A piece of source text. The text of a string literal is its contents, without quotes and with
its escapes replaced. -/
structure Token where
  type : TokenType
  text : String
  position : Position
  deriving Repr, DecidableEq

end Coscript
