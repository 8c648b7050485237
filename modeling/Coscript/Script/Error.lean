import Coscript.Parse.Error
import Coscript.Token.Lexer

/-!
# Compile errors

Why a script cannot be compiled.
-/

namespace Coscript.Script

/-- What is wrong with a constant. -/
inductive ConstantFault
  | tooLarge
  | containsZero
  | notAConstant
  deriving Repr, DecidableEq

/-- The text of a fault. -/
def ConstantFault.message : ConstantFault → String
  | tooLarge => "number too large to fit in target type"
  | containsZero => "strings cannot contain NUL"
  | notAConstant => "not a literal"

/-- Why a script cannot be compiled. -/
inductive CompileError
  | lexical (e : LexError)
  | parse (e : ParseError)
  | unknownOperator (symbol : String) (position : Position)
  | duplicateFunction (name : String) (line : Nat)
  | invalidConstant (text : String) (position : Position) (fault : ConstantFault)
  | tooManyArguments (name : String) (line : Nat)
  /-- A tree that is none of the language; its text. -/
  | unsupported (construct : String)
  deriving Repr, DecidableEq

namespace CompileError

/-- The place of an error, where it has one. -/
def position? : CompileError → Option Position
  | lexical e => some e.position
  | parse e => some e.position
  | unknownOperator _ p => some p
  | duplicateFunction _ line => some ⟨line, 1⟩
  | invalidConstant _ p _ => some p
  | tooManyArguments _ line => some ⟨line, 1⟩
  | unsupported _ => none

/-- The text of an error. -/
def message : CompileError → String
  | lexical e => e.message
  | parse e => e.message
  | unknownOperator symbol p => s!"unknown operator `{symbol}` at {p.line}:{p.column}"
  | duplicateFunction name line => s!"function `{name}` is already defined (line {line})"
  | invalidConstant text p fault =>
    s!"invalid literal `{text}` at {p.line}:{p.column}: {fault.message}"
  | tooManyArguments name line => s!"too many arguments in call to `{name}` (line {line})"
  | unsupported construct => s!"unsupported construct `{construct}`"

end CompileError

end Coscript.Script
