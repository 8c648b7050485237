import Coscript.Grammar.Terminal

/-!
# Symbols and productions

The symbols of a grammar are its terminals and the names of its non-terminals. A production
replaces a name by a sequence of symbols. Where rules are written or stored, an element may also
be the empty sequence, which leaves no trace in a production.
-/

namespace Coscript

/-- A terminal or the name of a non-terminal. -/
inductive Symbol
  | terminal (t : Terminal)
  | nonTerminal (name : String)
  deriving Repr, DecidableEq

namespace Symbol

/-- The text of a symbol in rules and messages. -/
def display : Symbol → String
  | terminal t => t.display
  | nonTerminal name => name

end Symbol

/-- What may stand in a written rule. -/
inductive Element
  | symbol (s : Symbol)
  | empty
  deriving Repr, DecidableEq

namespace Element

/-- A terminal as an element. -/
def terminal (t : Terminal) : Element := symbol (.terminal t)

/-- A name as an element. -/
def nonTerminal (name : String) : Element := symbol (.nonTerminal name)

/-- The symbol of an element that is not empty. -/
def symbol? : Element → Option Symbol
  | symbol s => some s
  | empty => none

/-- The text of an element in rules and messages. -/
def display : Element → String
  | symbol s => s.display
  | empty => "()"

/-- The order of elements: terminals, then names, then the empty element. -/
def cmp (a b : Element) : Ordering :=
  match a, b with
  | symbol (.terminal s), symbol (.terminal t) => s.cmp t
  | symbol (.terminal _), _ => .lt
  | _, symbol (.terminal _) => .gt
  | symbol (.nonTerminal m), symbol (.nonTerminal n) => compare m n
  | symbol _, empty => .lt
  | empty, symbol _ => .gt
  | empty, empty => .eq

end Element

/-- A production `name → body`. -/
structure Production where
  name : String
  body : List Symbol
  deriving Repr, DecidableEq

namespace Production

/-- The production that a written rule means. -/
def ofElements (name : String) (elements : List Element) : Production :=
  ⟨name, elements.filterMap Element.symbol?⟩

/-- The elements that a production is written with. -/
def elements (p : Production) : List Element := p.body.map .symbol

/-- The text of a production. -/
def display (p : Production) : String :=
  match p.body with
  | [] => s!"{p.name} -> ()"
  | body => s!"{p.name} ->" ++ String.join (body.map fun s => " " ++ s.display)

/-- A production is the one that it is written as. -/
theorem ofElements_elements (p : Production) : ofElements p.name p.elements = p := by
  simp [ofElements, elements, List.filterMap_map, Function.comp_def, Element.symbol?]

end Production

end Coscript
