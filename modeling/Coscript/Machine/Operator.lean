import Coscript.Data.OrderedMap
import Coscript.Machine.Error

/-!
# Operators

What the operators of scripts compute. Whole numbers stay whole, with 32 bits and without overflow
errors; a whole number and a binary fraction are computed as fractions. A sum with a text is a text.

A registry says which symbols are operators, what they compute, and how tightly the binary ones
bind. `Operators.standard` holds those of the language; the machine itself decides no operator but
takes all of them from a registry.
-/

namespace Coscript

/-- What a prefix operator computes. -/
abbrev UnaryOperation := Value → Except RuntimeError Value

/-- What a binary operator computes. -/
abbrev BinaryOperation := Value → Value → Except RuntimeError Value

/-- A binary operator; one of higher precedence binds tighter. -/
structure BinaryOperator where
  precedence : Nat
  apply : BinaryOperation

/-- The operators by their symbols. -/
structure Operators where
  unary : OrderedMap String UnaryOperation
  binary : OrderedMap String BinaryOperator

namespace Operation

/-- The negative of a number. -/
def negate : UnaryOperation
  | .int n => .ok (.int (-n))
  | .float bits => .ok (.float (Binary32.negate bits))
  | a => .error (.typeMismatch (.negation a.kind))

/-- The opposite truth value. -/
def not : UnaryOperation := fun a => .ok (.ofBool (!a.isTrue))

/-- The error of an operator that has no result for two values. -/
def mismatch (symbol : String) (a b : Value) : RuntimeError :=
  .typeMismatch (.operands symbol a.kind b.kind)

/-- Computes with whole numbers if both operands are, and with binary fractions otherwise. -/
def arithmetic (symbol : String) (int : Int32 → Int32 → Except RuntimeError Int32)
    (float : UInt32 → UInt32 → UInt32) : BinaryOperation
  | .int x, .int y => (int x y).map .int
  | a, b =>
    match a.asFloat?, b.asFloat? with
    | some x, some y => .ok (.float (float x y))
    | _, _ => .error (mismatch symbol a b)

/-- The sum of numbers, or one text after the other. -/
def add : BinaryOperation
  | .string a, b => .ok (.string (a ++ b.display))
  | a, .string b => .ok (.string (a.display ++ b))
  | a, b => arithmetic "+" (fun x y => .ok (x + y)) Binary32.add a b

/-- The difference. -/
def subtract : BinaryOperation :=
  arithmetic "-" (fun x y => .ok (x - y)) Binary32.subtract

/-- The product. -/
def multiply : BinaryOperation :=
  arithmetic "*" (fun x y => .ok (x * y)) Binary32.multiply

/-- The quotient; of whole numbers toward zero. -/
def divide : BinaryOperation :=
  arithmetic "/" (fun x y => if y = 0 then .error .divisionByZero else .ok (x / y)) Binary32.divide

/-- The remainder of a division toward zero. -/
def remainder : BinaryOperation :=
  arithmetic "%" (fun x y => if y = 0 then .error .divisionByZero else .ok (x % y))
    Binary32.remainder

/-- Compares two numbers or two texts, and answers whether the result is as asked. What is no number
compares with nothing. -/
def comparison (symbol : String) (asked : Ordering → Bool) : BinaryOperation
  | .int x, .int y => .ok (.ofBool (asked (compare x.toInt y.toInt)))
  | .string x, .string y => .ok (.ofBool (asked (compare x y)))
  | a, b =>
    match a.asFloat?, b.asFloat? with
    | some x, some y => .ok (.ofBool (((Binary32.order? x y).map asked).getD false))
    | _, _ => .error (mismatch symbol a b)

/-- The first operand if it is true, else the second. -/
def or : BinaryOperation := fun a b => .ok (if a.isTrue then a else b)

/-- The first operand if it is false, else the second. -/
def and : BinaryOperation := fun a b => .ok (if a.isTrue then b else a)

/-- Whether the operands are equal. -/
def equal : BinaryOperation := fun a b => .ok (.ofBool (a.equals b))

/-- Whether the operands are different. -/
def different : BinaryOperation := fun a b => .ok (.ofBool (!a.equals b))

end Operation

namespace Operators

/-- No operators. -/
def none : Operators := ⟨∅, ∅⟩

instance : Inhabited Operators := ⟨none⟩

/-- The operators of the language. -/
def standard : Operators where
  unary := .ofList [("-", Operation.negate), ("!", Operation.not)]
  binary := .ofList [
    ("||", ⟨1, Operation.or⟩),
    ("&&", ⟨2, Operation.and⟩),
    ("==", ⟨3, Operation.equal⟩),
    ("!=", ⟨3, Operation.different⟩),
    ("<", ⟨4, Operation.comparison "<" Ordering.isLT⟩),
    ("<=", ⟨4, Operation.comparison "<=" Ordering.isLE⟩),
    (">", ⟨4, Operation.comparison ">" Ordering.isGT⟩),
    (">=", ⟨4, Operation.comparison ">=" Ordering.isGE⟩),
    ("+", ⟨5, Operation.add⟩),
    ("-", ⟨5, Operation.subtract⟩),
    ("*", ⟨6, Operation.multiply⟩),
    ("/", ⟨6, Operation.divide⟩),
    ("%", ⟨6, Operation.remainder⟩)]

/-- What a prefix operator computes. -/
def unary? (o : Operators) (symbol : String) : Option UnaryOperation := o.unary.get? symbol

/-- The binary operator with a symbol. -/
def binary? (o : Operators) (symbol : String) : Option BinaryOperator := o.binary.get? symbol

/-- How tightly a binary operator binds. -/
def precedence? (o : Operators) (symbol : String) : Option Nat :=
  (o.binary? symbol).map BinaryOperator.precedence

/-- The operators with one more prefix operator. -/
def withUnary (o : Operators) (symbol : String) (apply : UnaryOperation) : Operators :=
  { o with unary := o.unary.insert symbol apply }

/-- The operators with one more binary operator. -/
def withBinary (o : Operators) (symbol : String) (operator : BinaryOperator) : Operators :=
  { o with binary := o.binary.insert symbol operator }

end Operators

end Coscript
