import Coscript.Bytecode.Instruction
import Coscript.Machine.Value

/-!
# Runtime errors

Why the machine stops.
-/

namespace Coscript

/-- Why a value does not fit where it is used. -/
inductive Mismatch
  | operands (symbol : String) (left right : ValueKind)
  | negation (operand : ValueKind)
  /-- A variable should have been named. -/
  | notAReference (found : ValueKind)
  /-- A time to wait is no number, negative or too long. -/
  | interval (found : Value)
  /-- What a native function says. -/
  | native (text : String)
  deriving Repr, DecidableEq

/-- The text of a mismatch. -/
def Mismatch.message : Mismatch → String
  | operands symbol left right => s!"cannot apply `{symbol}` to {left.name} and {right.name}"
  | negation operand => s!"cannot negate {operand.name}"
  | notAReference found => s!"expected a variable reference, found {found.name}"
  | interval found => s!"wait expects a non-negative number of seconds, got {found.display}"
  | native text => text

/-- Why the machine stops. A line is that of the call in the source, where there is one. -/
inductive RuntimeError
  | badCode (fault : CodeFault)
  | undefinedFunction (name : String) (line : Option Nat)
  | arityMismatch (name : String) (expected found : Nat) (line : Option Nat)
  | callDepthExceeded (name : String) (depth : Nat)
  | undefinedVariable (name : String)
  | typeMismatch (mismatch : Mismatch)
  | unknownOperator (symbol : String)
  | stackUnderflow
  | divisionByZero
  deriving Repr, DecidableEq

namespace RuntimeError

/-- How a message names a line. -/
def atLine : Option Nat → String
  | some line => s!" at line {line}"
  | none => ""

/-- The text of an error. -/
def message : RuntimeError → String
  | badCode fault => fault.message
  | undefinedFunction name line => s!"call to undefined function `{name}`{atLine line}"
  | arityMismatch name expected found line =>
    s!"`{name}` takes {expected} arguments, got {found}{atLine line}"
  | callDepthExceeded name depth => s!"calling `{name}` exceeds the maximum call depth of {depth}"
  | undefinedVariable name => s!"undefined variable `{name}`"
  | typeMismatch mismatch => s!"type mismatch: {mismatch.message}"
  | unknownOperator symbol => s!"unknown operator `{symbol}`"
  | stackUnderflow => "operand stack underflow"
  | divisionByZero => "division by zero"

end RuntimeError

end Coscript
