import Coscript.Token.Basic

/-!
# Terminals

What a grammar asks of a token: a token of some type with any text, or one with a given text. Two
terminals stand for no token, the empty string and the end of the input.
-/

namespace Coscript

/-- Terminal symbols. -/
inductive Terminal
  /-- Any token of a type. -/
  | any (type : TokenType)
  /-- A token of a type with this text. -/
  | literal (type : TokenType) (text : String)
  /-- The empty string. -/
  | epsilon
  /-- The end of the input. -/
  | endOfInput
  deriving Repr, DecidableEq

namespace Terminal

/-- Terminals that differ only in their texts are in one bucket. -/
instance : Hashable Terminal where
  hash
    | any type => .ofNat (type.toNat + 2)
    | literal type _ => .ofNat (type.toNat + 10)
    | epsilon => 0
    | endOfInput => 1

/-- The type of the tokens that a terminal stands for. -/
def tokenType : Terminal → TokenType
  | any type => type
  | literal type _ => type
  | epsilon => .special
  | endOfInput => .special

/-- The text that a terminal asks for. -/
def text? : Terminal → Option String
  | literal _ text => some text
  | _ => none

/-- Whether a terminal stands for tokens with any text. -/
def isWildcard : Terminal → Bool
  | any _ => true
  | _ => false

/-- The terminal that asks for the same type with any text. -/
def wildcard : Terminal → Terminal
  | literal type _ => any type
  | t => t

/-- Whether a token with this type and text is one that the terminal stands for. -/
def accepts (t : Terminal) (type : TokenType) (text : String) : Bool :=
  match t with
  | any type' => type' = type
  | literal type' text' => type' = type && text' = text
  | epsilon => false
  | endOfInput => false

/-- The text of a terminal in rules and messages. -/
def display : Terminal → String
  | any type => type.name
  | literal _ text => s!"`{text}`"
  | epsilon => "()"
  | endOfInput => "$"

/-- The order of terminals: those that stand for tokens by type and text, a wildcard before the
literals of its type, then the empty string, then the end of the input. -/
def cmp (s t : Terminal) : Ordering :=
  match s, t with
  | epsilon, epsilon => .eq
  | endOfInput, endOfInput => .eq
  | _, endOfInput => .lt
  | endOfInput, _ => .gt
  | _, epsilon => .lt
  | epsilon, _ => .gt
  | any a, any b => compare a.toNat b.toNat
  | any a, literal b _ => (compare a.toNat b.toNat).then .lt
  | literal a _, any b => (compare a.toNat b.toNat).then .gt
  | literal a x, literal b y => (compare a.toNat b.toNat).then (compare x y)

end Terminal

end Coscript
