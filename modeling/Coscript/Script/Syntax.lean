/-!
# The syntax of scripts

What a script says, apart from how it is written: expressions, statements, functions.
-/

namespace Coscript.Script

/-- Expressions. A call knows the source line it stands on. -/
inductive Expression
  | int (n : Int32)
  | float (bits : UInt32)
  | string (text : String)
  | variable (name : String)
  | assign (name : String) (value : Expression)
  | unary (symbol : String) (operand : Expression)
  | binary (symbol : String) (left right : Expression)
  | call (name : String) (arguments : List Expression) (line : Nat)
  deriving Repr, Inhabited

/-- Statements. -/
inductive Statement
  /-- Declares a variable; without a value it is undefined. -/
  | declare (name : String) (value? : Option Expression)
  | expression (e : Expression)
  /-- Returns from a function; without a value the undefined one is returned. -/
  | ret (value? : Option Expression)
  | block (body : List Statement)
  | whileLoop (condition : Expression) (body : List Statement)
  | ifThen (condition : Expression) (body : List Statement)
  | ifElse (condition : Expression) (body : List Statement) (alternative : Statement)
  deriving Repr, Inhabited

/-- The definition of a function, and the source line of its name. -/
structure Definition where
  name : String
  parameters : List String
  body : List Statement
  line : Nat
  deriving Repr

/-- What a script consists of. -/
inductive Declaration
  | function (d : Definition)
  | statement (s : Statement)
  deriving Repr

end Coscript.Script
