import Coscript.Decimal.Layout

/-!
# Values

What scripts compute with: the undefined value, whole numbers of 32 bits, binary fractions of 32
bits, texts, and the names of variables, which come up where a variable is read or assigned.
-/

namespace Coscript

/-- The values of scripts. -/
inductive Value
  | undefined
  | int (n : Int32)
  /-- The number with these 32 bits. -/
  | float (bits : UInt32)
  | string (text : String)
  /-- The name of a variable. -/
  | reference (name : String)
  deriving Repr, DecidableEq, Inhabited

/-- The kinds of values. -/
inductive ValueKind
  | undefined
  | int
  | float
  | string
  | reference
  deriving Repr, DecidableEq

/-- The name of a kind. -/
def ValueKind.name : ValueKind → String
  | undefined => "undefined"
  | int => "int"
  | float => "float"
  | string => "string"
  | reference => "reference"

namespace Value

/-- The kind of a value. -/
def kind : Value → ValueKind
  | undefined => .undefined
  | int _ => .int
  | float _ => .float
  | string _ => .string
  | reference _ => .reference

/-- The text of a value. -/
def display : Value → String
  | undefined => "undefined"
  | int n => toString n.toInt
  | float bits => Decimal.Layout.plain.text bits
  | string text => text
  | reference name => s!"&{name}"

/-- Whether a value counts as true in a condition. -/
def isTrue : Value → Bool
  | undefined => false
  | int n => n ≠ 0
  | float bits => !Binary32.isZero bits
  | string text => text ≠ ""
  | reference _ => true

/-- The truth values are one and zero. -/
def ofBool (b : Bool) : Value := int (if b then 1 else 0)

/-- A number as a binary fraction, rounded if need be. -/
def asFloat? : Value → Option UInt32
  | int n => some (Binary32.ofInt n.toInt)
  | float bits => some bits
  | _ => none

/-- Whether two values are of one kind and equal; fractions are equal if their numbers are. -/
def same : Value → Value → Bool
  | float a, float b => Binary32.equals a b
  | a, b => a = b

/-- The equality of scripts. Numbers of different kinds are compared as binary fractions. -/
def equals (a b : Value) : Bool :=
  match a, b with
  | int x, int y => x = y
  | a, b =>
    match a.asFloat?, b.asFloat? with
    | some x, some y => Binary32.equals x y
    | _, _ => a.same b

end Value

end Coscript
