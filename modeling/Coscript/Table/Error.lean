import Coscript.Table.Basic

/-!
# Table errors

Why a grammar has no table of some kind. A table has one entry for a state and a terminal; where two
are demanded, the error names both and shows the items of the state.
-/

namespace Coscript

/-- Why there is no table. -/
inductive TableError
  /-- The start symbol has not exactly one production. -/
  | startRule (symbol : String) (count : Nat)
  | shiftReduceConflict (state : Nat) (items : List String) (shift reduce : String)
  | reduceReduceConflict (state : Nat) (items : List String) (lookahead reduce₁ reduce₂ : String)
  | shiftShiftConflict (state : Nat) (terminal : String)
  | gotoConflict (state : Nat) (symbol : String)
  /-- An entry was asked for in a state that the table does not have. -/
  | undefinedState (state : Nat)
  /-- An entry refers to a rule that the table does not have. -/
  | undefinedRule (slot : Nat)
  deriving Repr, DecidableEq

namespace TableError

/-- The text of an error. -/
def message : TableError → String
  | startRule symbol count =>
    s!"default symbol `{symbol}` must have exactly one rule, found {count}"
  | shiftReduceConflict state _ shift _ =>
    s!"grammar is ambiguous: shift-reduce conflict in state {state} on {shift}"
  | reduceReduceConflict state _ lookahead _ _ =>
    s!"grammar is ambiguous: reduce-reduce conflict in state {state} on {lookahead}"
  | shiftShiftConflict state terminal => s!"conflicting shifts in state {state} on {terminal}"
  | gotoConflict state symbol => s!"conflicting gotos in state {state} on {symbol}"
  | undefinedState state => s!"no state {state}"
  | undefinedRule slot => s!"no rule in slot {slot}"

/-- The lines that show the items of a state. -/
def itemLines (items : List String) : String := String.join (items.map fun i => s!"  {i}\n")

/-- The description of an error in several lines. -/
def report (e : TableError) : String :=
  match e with
  | shiftReduceConflict state items shift reduce =>
    s!"shift-reduce conflict at state {state}:\n\n{itemLines items}" ++
      s!"\nwhich can shift {shift}\nor reduce by:\n\n  {reduce}\n"
  | reduceReduceConflict state items lookahead reduce₁ reduce₂ =>
    s!"reduce-reduce conflict at state {state}:\n\n{itemLines items}" ++
      s!"\nwhich can be reduced by:\n\n  {reduce₁}\n\nor:\n\n  {reduce₂}\n\n" ++
      s!"when the lookahead is {lookahead}\n"
  | e => e.message ++ "\n"

end TableError

end Coscript
