import Coscript.Data.IdSet
import Coscript.Grammar.Basic

/-!
# FIRST and FOLLOW sets

For every name of a grammar, the terminals that may begin what it derives, and the terminals that
may stand right after it. Sets hold terminal numbers. A FIRST set holds the number of the empty
string if the name derives it; a FOLLOW set holds the end of the input if the name may end what the
start symbol derives.

Both families of sets are built in passes over the productions. A pass takes the productions in
their order and lets each one add to the sets what it demands, so that later productions see what
earlier ones added. The sets are done when a pass adds nothing. Each pass but the last adds a
terminal to some set, which bounds their number.
-/

namespace Coscript

/-- A set of terminal numbers for each name. -/
abbrev TerminalSets := OrderedMap String IdSet

namespace TerminalSets

/-- No terminals for any of the given names. -/
def none (names : List String) : TerminalSets := .ofList (names.map fun a => (a, ∅))

/-- The set of a name. -/
def of (s : TerminalSets) (name : String) : IdSet := (s.get? name).getD ∅

/-- Adds terminals to the set of a name. -/
def grow (s : TerminalSets) (name : String) (more : IdSet) : TerminalSets :=
  match s.get? name with
  | some old => s.insert name (old.union more)
  | Option.none => s

end TerminalSets

/-- What becomes of a sequence of symbols behind its first terminals. -/
inductive Ending
  /-- The whole sequence derives the empty string. -/
  | vanishes
  /-- Some symbol does not. -/
  | stops
  /-- A symbol that the grammar does not know was reached. -/
  | unknown (s : Symbol)
  deriving Repr, DecidableEq

/-- The terminals that may begin a sequence of symbols, and whether the sequence can vanish. -/
structure Leading where
  terminals : IdSet
  ending : Ending
  deriving DecidableEq

/-- The leading terminals of a sequence, given the FIRST sets of the names. -/
def Grammar.leading (g : Grammar) (first : TerminalSets) : List Symbol → Leading
  | [] => ⟨∅, .vanishes⟩
  | .terminal t :: _ =>
    match g.terminalNumber? t with
    | some n => ⟨IdSet.insert ∅ n, .stops⟩
    | none => ⟨∅, .unknown (.terminal t)⟩
  | .nonTerminal a :: rest =>
    match first.get? a with
    | none => ⟨∅, .unknown (.nonTerminal a)⟩
    | some s =>
      if Grammar.epsilon ∈ s then
        let l := g.leading first rest
        ⟨(s.erase Grammar.epsilon).union l.terminals, l.ending⟩
      else ⟨s.erase Grammar.epsilon, .stops⟩

/-- What a production demands of the FIRST set of its name. -/
def Grammar.firstDemand (g : Grammar) (first : TerminalSets) (p : Production) : IdSet :=
  let l := g.leading first p.body
  if l.ending = .vanishes then l.terminals.insert Grammar.epsilon else l.terminals

/-- One pass over the productions for the FIRST sets. -/
def Grammar.firstPass (g : Grammar) (first : TerminalSets) : TerminalSets :=
  g.productions.toList.foldl (fun s p => s.grow p.name (g.firstDemand s p)) first

/-- Lets the names in a part of a production's body take what may stand after them. -/
def Grammar.followBody (g : Grammar) (first : TerminalSets) (name : String) :
    List Symbol → TerminalSets → TerminalSets
  | [], s => s
  | .terminal _ :: rest, s => g.followBody first name rest s
  | .nonTerminal a :: rest, s =>
    let l := g.leading first rest
    let demand := if l.ending = .vanishes then l.terminals.union (s.of name) else l.terminals
    g.followBody first name rest (s.grow a demand)

/-- One pass over the productions for the FOLLOW sets. -/
def Grammar.followPass (g : Grammar) (first follow : TerminalSets) : TerminalSets :=
  g.productions.toList.foldl (fun s p => g.followBody first p.name p.body s) follow

/-- Repeats a pass until one changes nothing, at most `fuel` times. Gives the sets and the number
of passes, the last one included. -/
def settle (pass : TerminalSets → TerminalSets) : Nat → TerminalSets → TerminalSets × Nat
  | 0, s => (s, 0)
  | fuel + 1, s =>
    let s' := pass s
    if s' = s then (s, 1)
    else
      let (r, n) := settle pass fuel s'
      (r, n + 1)

/-- The FIRST and FOLLOW sets of a grammar, and how many passes they took. -/
structure FirstFollow where
  first : TerminalSets
  follow : TerminalSets
  firstPasses : Nat
  followPasses : Nat

namespace Grammar

/-- Each pass but the last adds one of the terminals to the set of one of the names. -/
def passBound (g : Grammar) : Nat := g.names.length * g.terminals.size + 1

/-- The FIRST sets, and the number of passes. -/
def firstSets (g : Grammar) : TerminalSets × Nat :=
  settle g.firstPass g.passBound (.none g.names)

/-- The FOLLOW sets for given FIRST sets, and the number of passes. -/
def followSets (g : Grammar) (first : TerminalSets) : TerminalSets × Nat :=
  settle (g.followPass first) g.passBound
    ((TerminalSets.none g.names).grow g.start (IdSet.insert ∅ endOfInput))

/-- The FIRST and FOLLOW sets. -/
def firstFollow (g : Grammar) : FirstFollow :=
  let (first, firstPasses) := g.firstSets
  let (follow, followPasses) := g.followSets first
  ⟨first, follow, firstPasses, followPasses⟩

/-- The terminals in a set, by increasing number. -/
def terminalsIn (g : Grammar) (s : IdSet) : List Terminal := s.toList.filterMap g.terminal?

end Grammar

/-- What is logged about the sets. -/
def FirstFollow.logEntry (s : FirstFollow) : LogEntry :=
  ⟨.debug, s!"FIRST converged after {s.firstPasses} passes, " ++
    s!"FOLLOW after {s.followPasses} passes"⟩

end Coscript
