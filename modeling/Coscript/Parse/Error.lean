import Coscript.Parse.Tree
import Coscript.Text.Line

/-!
# Parse errors

Why a list of tokens has no tree. Tokens may end too early or go on in a way that the table does
not allow; the error then names what was found and what could have been there. The other errors are
those of tables that do not fit the input's symbols.
-/

namespace Coscript

/-- Why there is no tree. -/
inductive ParseError
  /-- What was found has no action; `none` is the end of the input. -/
  | unexpectedToken (found : Option Token) (position : Position) (expected : List String)
  /-- A reduction asks for symbols that have not been pushed. -/
  | malformedTable (state : Nat) (rule : String) (position : Position)
  /-- A reduction asks for a rule that the table does not have. -/
  | undefinedRule (slot : Nat) (position : Position)
  deriving Repr, DecidableEq

namespace ParseError

/-- The place of an error. -/
def position : ParseError → Position
  | unexpectedToken _ p _ => p
  | malformedTable _ _ p => p
  | undefinedRule _ p => p

/-- How an error names what was found. -/
def foundName : Option Token → String
  | some t => s!"{t.type.name} `{t.text}`"
  | none => "end of file"

/-- The text of an error. -/
def message : ParseError → String
  | unexpectedToken found p expected =>
    s!"unexpected {foundName found} at {p.line}:{p.column}, expected one of: " ++
      String.intercalate ", " expected
  | malformedTable state rule p =>
    s!"malformed table: state {state} reduces by `{rule}` at {p.line}:{p.column}, " ++
      "which does not match the parse stack"
  | undefinedRule slot p => s!"malformed table: no rule in slot {slot} at {p.line}:{p.column}"

/-- The description of an error in several lines, with the line of the source that it is in and a
mark below the column. -/
def report (e : ParseError) (path source : String) : String :=
  let p := e.position
  let line := ((Line.all source.toList)[p.line - 1]?).getD []
  s!"syntax error at {path}:{p.line}:{p.column}\n" ++
    "  " ++ String.ofList line ++ "\n" ++
    "  " ++ String.ofList (List.replicate (p.column - 1) ' ') ++ "^\n" ++
    s!"message: {e.message}\n"

end ParseError

end Coscript
