import Coscript.Data.Numbering
import Coscript.Data.OrderedMap
import Coscript.Grammar.Production
import Coscript.Log
import Coscript.Token.Lexer

/-!
# Grammars

A grammar is a start symbol and a list of productions in which every name that is used has a
production. Productions are referred to by their place in the list, so that two productions with
the same text are still different. Terminals are numbered: the end of the input is number `0`, the
empty string number `1`, and the others follow in the order in which the productions use them.

* `Grammar.build`: a grammar from its productions, or the first name without a production;
* `Grammar.productionsOf`: the places of a name's productions.
-/

namespace Coscript

/-- What is wrong with one line of a grammar document. -/
inductive LineFault
  | startWithoutSymbol
  | alternativeWithoutRule
  | invalidName (name : String)
  | noArrow
  deriving Repr, DecidableEq

/-- The text of a fault. -/
def LineFault.message : LineFault → String
  | startWithoutSymbol => "expected a symbol after %start"
  | alternativeWithoutRule => "alternative without a rule"
  | invalidName name => s!"invalid rule name `{name}`"
  | noArrow => "expected `Name -> elements`"

/-- What is wrong with a part of a rule body. -/
inductive LiteralFault
  | lexical (e : LexError)
  | noLeftOperand
  | noRightOperand
  | unclosedEmpty
  | unquoted
  | notATokenType
  | notOneToken
  deriving Repr, DecidableEq

/-- The text of a fault. -/
def LiteralFault.message : LiteralFault → String
  | lexical e => e.message
  | noLeftOperand => "alternation without a left operand"
  | noRightOperand => "alternation without a right operand"
  | unclosedEmpty => "expected `()`"
  | unquoted => "literals must be quoted with backticks"
  | notATokenType => "only token types can be alternated"
  | notOneToken => "must be exactly one token"

/-- Why there is no grammar. -/
inductive GrammarError
  | malformedLine (line : Nat) (fault : LineFault)
  | undefinedSymbol (symbol rule : String)
  | undefinedStart (symbol : String)
  | missingStart
  | invalidLiteral (literal : String) (fault : LiteralFault)
  deriving Repr, DecidableEq

/-- The text of an error. -/
def GrammarError.message : GrammarError → String
  | malformedLine line fault => s!"line {line}: {fault.message}"
  | undefinedSymbol symbol rule => s!"undefined symbol `{symbol}` in a rule of `{rule}`"
  | undefinedStart symbol => s!"default symbol `{symbol}` has no rules"
  | missingStart => "missing %start declaration"
  | invalidLiteral literal fault => s!"invalid literal `{literal}`: {fault.message}"

namespace Grammar

/-- The places of each name's productions; names in the order of their first production. -/
def indexOf (productions : Array Production) : OrderedMap String (List Nat) :=
  productions.toList.zipIdx.foldl
    (fun m (p, i) => m.insert p.name ((m.get? p.name).getD [] ++ [i])) ∅

/-- The terminals that the productions use, after the end of the input and the empty string. -/
def terminalsOf (productions : Array Production) : Numbering Terminal :=
  .ofList ([.endOfInput, .epsilon] ++ productions.toList.flatMap fun p =>
    p.body.filterMap fun
      | .terminal t => some t
      | .nonTerminal _ => none)

/-- The first use of a name that has no production, with the production that uses it. -/
def undefined? (index : OrderedMap String (List Nat)) (productions : Array Production) :
    Option (String × String) :=
  productions.toList.findSome? fun p =>
    p.body.findSome? fun
      | .terminal _ => none
      | .nonTerminal name => if index.contains name then none else some (name, p.name)

end Grammar

/-- Productions and a start symbol, every used name of which has a production. -/
structure Grammar where
  start : String
  productions : Array Production
  /-- The places of each name's productions. -/
  index : OrderedMap String (List Nat)
  /-- The numbers of the terminals. -/
  terminals : Numbering Terminal
  index_eq : index = Grammar.indexOf productions
  terminals_eq : terminals = Grammar.terminalsOf productions
  defined : Grammar.undefined? index productions = none
  start_defined : index.contains start = true

namespace Grammar

/-- The number of the end of the input. -/
def endOfInput : Nat := 0

/-- The number of the empty string. -/
def epsilon : Nat := 1

/-- The grammar with a start symbol and productions. -/
def build (start : String) (productions : List Production) : Except GrammarError Grammar :=
  let array := productions.toArray
  let index := indexOf array
  match h : undefined? index array with
  | some (name, rule) => .error (.undefinedSymbol name rule)
  | none =>
    if hs : index.contains start = true then
      .ok ⟨start, array, index, terminalsOf array, rfl, rfl, h, hs⟩
    else .error (.undefinedStart start)

/-- The names that have productions, in the order of their first production. -/
def names (g : Grammar) : List String := g.index.keys

/-- The places of the productions of a name. -/
def productionsOf (g : Grammar) (name : String) : List Nat := (g.index.get? name).getD []

/-- The production at a place. -/
def production? (g : Grammar) (i : Nat) : Option Production := g.productions[i]?

/-- Whether a name has a production. -/
def isNonTerminal (g : Grammar) (name : String) : Bool := g.index.contains name

/-- The terminal with a number. -/
def terminal? (g : Grammar) (n : Nat) : Option Terminal := g.terminals.get? n

/-- The number of a terminal. -/
def terminalNumber? (g : Grammar) (t : Terminal) : Option Nat := g.terminals.number? t

/-- The text of a grammar, one production a line. -/
def display (g : Grammar) : String :=
  s!"%start {g.start}\n" ++
    String.join (g.productions.toList.map fun p => p.display ++ "\n")

/-- What is logged about a grammar that was read from a document. -/
def logEntry (g : Grammar) : LogEntry :=
  ⟨.debug, s!"grammar: {g.names.length} symbols, {g.productions.size} rules, " ++
    s!"{g.terminals.size} terminals"⟩

end Grammar

end Coscript
