import Coscript.Grammar.Document
import Coscript.Table.Construction

/-!
# The grammar of scripts

The language that scripts are written in. Every binary operator is just an operator here: how
tightly operators bind is left to the compiler.
-/

namespace Coscript.Script

/-- The lines of the document that says how scripts are written. -/
def lines : List String := [
  "%start Program",
  "Program -> Declarations",
  "",
  "Declarations -> Declaration Declarations",
  "  | ()",
  "Declaration -> Function",
  "  | Statement",
  "",
  "Function -> `function` Identifier `(` Parameters `)` Block",
  "Parameters -> ParameterList",
  "  | ()",
  "ParameterList -> Identifier ParameterTail",
  "ParameterTail -> `,` Identifier ParameterTail",
  "  | ()",
  "",
  "Block -> `\x7b` Statements `\x7d`",
  "Statements -> Statement Statements",
  "  | ()",
  "",
  "Statement -> VarStatement",
  "  | IfStatement",
  "  | WhileStatement",
  "  | ReturnStatement",
  "  | ExpressionStatement",
  "  | Block",
  "VarStatement -> `var` Identifier `;`",
  "  | `var` Identifier `=` Expression `;`",
  "IfStatement -> `if` `(` Expression `)` Block ElseClause",
  "ElseClause -> `else` Block",
  "  | `else` IfStatement",
  "  | ()",
  "WhileStatement -> `while` `(` Expression `)` Block",
  "ReturnStatement -> `return` `;`",
  "  | `return` Expression `;`",
  "ExpressionStatement -> Expression `;`",
  "",
  "Expression -> Identifier `=` Expression",
  "  | Binary",
  "Binary -> Unary BinaryTail",
  "BinaryTail -> Operator Unary BinaryTail",
  "  | ()",
  "Unary -> `-` Unary",
  "  | `!` Unary",
  "  | Primary",
  "Primary -> Identifier",
  "  | Identifier `(` Arguments `)`",
  "  | Integer|Float|String",
  "  | `(` Expression `)`",
  "Arguments -> ArgumentList",
  "  | ()",
  "ArgumentList -> Expression ArgumentTail",
  "ArgumentTail -> `,` Expression ArgumentTail",
  "  | ()"]

/-- The productions of the language. -/
def document : String := String.join (lines.map fun line => line ++ "\n")

/-- The grammar of the language. -/
@[irreducible] def grammar : Except GrammarError Grammar := Document.parse document

end Coscript.Script
