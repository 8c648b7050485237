import Coscript.Log
import Coscript.Parse.Error
import Coscript.Table.Basic

/-!
# The parser

A parser pushes tokens, and replaces pushed trees that stand for the body of a rule by one tree with
the rule's name. Its **configuration** is its state, the pushed trees, each with the state that it
was pushed in, and what is left of the input. A table says what to do in a configuration:
`Configuration.step` does it, and `Configuration.run` goes on until there is a tree or an error.

A tree is accepted when it was made by the table's default rule, nothing else is pushed and the
input is at its end. A token is looked up by its type and text first, and by its type alone if this
gives no action.
-/

namespace Coscript

/-- How far a parser has come. -/
structure Configuration where
  state : Nat
  /-- The pushed trees, the last one first, each with the state it was pushed in. -/
  stack : List (Nat × Tree)
  rest : List Token
  /-- The place of the last token pushed. -/
  last : Position

/-- The trees taken from a stack for a rule. -/
structure Handle where
  /-- The state in which the first of the trees was pushed. -/
  state : Nat
  children : List Tree
  below : List (Nat × Tree)

namespace Configuration

/-- The configuration before a list of tokens. -/
def start (t : ParsingTable) (tokens : List Token) : Configuration :=
  ⟨t.initial, [], tokens, .start⟩

/-- The place of the next token, or of the last one at the end of the input. -/
def position (c : Configuration) : Position :=
  match c.rest with
  | t :: _ => t.position
  | [] => c.last

/-- The action on a token, or on the end of the input, in a state. -/
def lookup (t : ParsingTable) (state : Nat) : Option Token → Action
  | none => t.action state .endOfInput
  | some x =>
    match t.action state (.literal x.type x.text) with
    | .error => t.action state (.any x.type)
    | a => a

/-- The action in a configuration. -/
def action (t : ParsingTable) (c : Configuration) : Action := lookup t c.state c.rest.head?

/-- The error that the next token has no action in a state. -/
def unexpected (t : ParsingTable) (c : Configuration) (state : Nat) : ParseError :=
  .unexpectedToken c.rest.head? c.position (t.expected state)

/-- Takes the trees for a rule from the stack, if they stand for its body. -/
def handle? (c : Configuration) (p : Production) : Option Handle :=
  let taken := c.stack.take p.body.length
  let children := (taken.map (·.2)).reverse
  if taken.length = p.body.length ∧ Tree.standFor children p.body then
    some ⟨((taken.getLast?).map (·.1)).getD c.state, children, c.stack.drop p.body.length⟩
  else none

/-- What a step leads to. -/
inductive Progress
  | continues (c : Configuration)
  | ends (outcome : Except ParseError Tree)

/-- Replaces the trees for the rule in a slot. -/
def reduce (t : ParsingTable) (c : Configuration) (slot : Nat) : Progress :=
  match t.rule? slot with
  | none => .ends (.error (.undefinedRule slot c.position))
  | some p =>
    match c.handle? p with
    | none => .ends (.error (.malformedTable c.state p.display c.position))
    | some h =>
      let tree := Tree.node p.name h.children
      if slot = t.defaultRule ∧ h.below = [] ∧ c.rest = [] then .ends (.ok tree)
      else
        match t.goto? h.state p.name with
        | some next => .continues { c with state := next, stack := (h.state, tree) :: h.below }
        | none => .ends (.error (c.unexpected t h.state))

/-- Does what the table says. -/
def step (t : ParsingTable) (c : Configuration) : Progress :=
  match c.action t with
  | .shift next =>
    match c.rest with
    | [] => .ends (.error (c.unexpected t c.state))
    | x :: rest => .continues ⟨next, (c.state, .leaf x) :: c.stack, rest, x.position⟩
  | .reduce slot => c.reduce t slot
  | .error => .ends (.error (c.unexpected t c.state))

/-- Goes on until there is a tree or an error, for at most `fuel` steps. -/
def run (t : ParsingTable) : Nat → Configuration → Option (Except ParseError Tree)
  | 0, _ => none
  | fuel + 1, c =>
    match c.step t with
    | .ends outcome => some outcome
    | .continues c' => run t fuel c'

/-! ### What is logged -/

/-- What is logged about the step from a configuration. -/
def logEntry? (t : ParsingTable) (c : Configuration) : Option LogEntry :=
  match c.action t with
  | .shift next =>
    c.rest.head?.map fun x => ⟨.trace, s!"shift {x.type.name} `{x.text}` -> {next}"⟩
  | .reduce slot => do
    let p ← t.rule? slot
    let _ ← c.handle? p
    return ⟨.trace, s!"reduce {p.display}"⟩
  | .error => none

/-- What is logged on the way, after the entries in `log`. -/
def logged (t : ParsingTable) : Nat → Configuration → Array LogEntry → Array LogEntry
  | 0, _, log => log
  | fuel + 1, c, log =>
    let log := match c.logEntry? t with
      | some e => log.push e
      | none => log
    match c.step t with
    | .ends _ => log
    | .continues c' => logged t fuel c' log

end Configuration

namespace ParsingTable

/-- The tree of a list of tokens or the first error, if it is found within `fuel` steps. -/
def parse (fuel : Nat) (t : ParsingTable) (tokens : List Token) : Option (Except ParseError Tree) :=
  Configuration.run t fuel (.start t tokens)

/-- What is logged while tokens are parsed. -/
def parseLog (fuel : Nat) (t : ParsingTable) (tokens : List Token) : List LogEntry :=
  (Configuration.logged t fuel (.start t tokens) #[]).toList

end ParsingTable

end Coscript
