import Coscript.Data.OrderedMap
import Coscript.Grammar.Production

/-!
# Parsing tables

A table tells what a shift-reduce parser does in each state: whether the next terminal is pushed, or
which rule the pushed symbols are reduced by, and which state follows a reduction. It holds the
rules that it reduces by, so that a parser needs no grammar. A rule is referred to by its **slot**,
its place among these rules.
-/

namespace Coscript

/-- What a parser does on a terminal. -/
inductive Action
  /-- The terminal may not come next. -/
  | error
  /-- Push the token and go to a state. -/
  | shift (target : Nat)
  /-- Replace pushed symbols by the name of the rule in a slot. -/
  | reduce (slot : Nat)
  deriving Repr, DecidableEq

namespace Action

/-- The text of an action. -/
def display : Action → String
  | error => "Error"
  | shift target => s!"Shift({target})"
  | reduce slot => s!"Reduce({slot})"

end Action

/-- The entries of a state. -/
structure TableRow where
  actions : OrderedMap Terminal Action
  gotos : OrderedMap String Nat
  deriving DecidableEq

namespace TableRow

/-- The row without entries. -/
def empty : TableRow := ⟨∅, ∅⟩

instance : Inhabited TableRow := ⟨empty⟩

end TableRow

/-- A row for each state, and the rules to reduce by. -/
structure ParsingTable where
  initial : Nat
  rows : Array TableRow
  rules : Array Production
  /-- The slot of the rule that stands for whole inputs. -/
  defaultRule : Nat
  deriving DecidableEq

namespace ParsingTable

/-- The number of states. -/
def size (t : ParsingTable) : Nat := t.rows.size

/-- The action on exactly this terminal. Without an entry it is an error. -/
def action (t : ParsingTable) (state : Nat) (x : Terminal) : Action :=
  ((t.rows[state]?).bind fun r => r.actions.get? x).getD .error

/-- The state that follows a reduction to a name. -/
def goto? (t : ParsingTable) (state : Nat) (name : String) : Option Nat :=
  (t.rows[state]?).bind fun r => r.gotos.get? name

/-- The rule in a slot. -/
def rule? (t : ParsingTable) (slot : Nat) : Option Production := t.rules[slot]?

/-- The texts of the terminals that may come next in a state. -/
def expected (t : ParsingTable) (state : Nat) : List String :=
  match t.rows[state]? with
  | none => []
  | some r => (r.actions.entries.filter fun e => e.2 ≠ .error).map fun e => e.1.display

end ParsingTable

end Coscript
