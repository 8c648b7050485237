import Coscript.Automaton.Collection
import Coscript.Table.Builder

/-!
# Constructing tables

The table of an automaton has an entry for each transition of a state, and for each complete item
of a state the reduction by its production on the terminals that the discipline names. There are
three strategies: `simple` takes items without lookaheads, `canonical` takes items with one terminal
of lookahead, and `merged` merges those states of the canonical table whose items differ only in
their lookaheads.

* `Strategy.build`: the table of a grammar by a strategy;
* `Strategy.construct`: the same with what is logged on the way.
-/

namespace Coscript

namespace Grammar

/-- The only production of the start symbol. -/
def startProduction (g : Grammar) : Except TableError Nat :=
  match g.productionsOf g.start with
  | [p] => .ok p
  | ps => .error (.startRule g.start ps.length)

end Grammar

namespace Collection

variable {L : Type} [DecidableEq L] [Hashable L]

/-- Enters what an item of a state demands. -/
def enterItem (d : Discipline L) (g : Grammar) (s : FirstFollow) (c : Collection L) (state : Nat)
    (b : TableBuilder) (i : Item L) : Except TableError TableBuilder :=
  let items := fun (_ : Unit) => c.itemTexts d g state
  match i.next? g with
  | some (.terminal x) =>
    match (c.row state).get? (.terminal x) with
    | some target => b.setAction state x (.shift target) items
    | none => .ok b
  | some (.nonTerminal name) =>
    match (c.row state).get? (.nonTerminal name) with
    | some target => b.setGoto state name target
    | none => .ok b
  | none =>
    match b.slot? g i.production with
    | none => .ok b
    | some (b, slot) =>
      (g.terminalsIn (.ofList (d.reduceOn g s i))).foldlM
        (fun b x => b.setAction state x (.reduce slot) items) b

/-- Enters what the items of a state demand. -/
def enterState (d : Discipline L) (g : Grammar) (s : FirstFollow) (c : Collection L)
    (b : TableBuilder) (state : Nat) : Except TableError TableBuilder :=
  (c.itemsOf state).foldlM (c.enterItem d g s state) b

/-- The table of an automaton that starts with a production. -/
def table (d : Discipline L) (g : Grammar) (s : FirstFollow) (c : Collection L)
    (production : Nat) : Except TableError ParsingTable :=
  match TableBuilder.start? g c.size production with
  | none => .error (.startRule g.start 0)
  | some b => do
    let b ← (List.range c.size).foldlM (c.enterState d g s) b
    return b.finish 0

end Collection

/-! ### Merging states -/

/-- The states of a collection in groups of one core, numbered in the order in which the cores
appear. -/
structure Merging where
  cores : Numbering (List (Item Unit))
  /-- The group of each state. -/
  group : Array Nat

namespace Merging

/-- Groups the states of a collection. -/
def ofCollection (c : Collection Nat) : Merging :=
  (List.range c.size).foldl
    (fun m state =>
      let (cores, n) := m.cores.insert (c.core state)
      ⟨cores, m.group.push n⟩)
    ⟨.empty, #[]⟩

/-- The number of groups. -/
def size (m : Merging) : Nat := m.cores.size

/-- The group of a state. -/
def groupOf (m : Merging) (state : Nat) : Nat := (m.group[state]?).getD 0

/-- The texts of the items in all states of a group, in alphabetical order. -/
def itemTexts (m : Merging) (g : Grammar) (c : Collection Nat) (group : Nat) : List String :=
  let states := (List.range c.size).filter fun state => m.groupOf state = group
  (states.flatMap (c.itemTexts .canonical g)).eraseDups.mergeSort fun a b => decide (a ≤ b)

/-- The action of a merged table that stands for one of the canonical table. -/
def action (m : Merging) : Action → Action
  | .shift target => .shift (m.groupOf target)
  | .reduce slot => .reduce slot
  | .error => .error

/-- Enters the row of a canonical state into the row of its group. -/
def enterRow (m : Merging) (g : Grammar) (c : Collection Nat) (b : TableBuilder)
    (row : TableRow × Nat) : Except TableError TableBuilder := do
  let group := m.groupOf row.2
  let b ← row.1.actions.entries.foldlM
    (fun b (x, a) => b.setAction group x (m.action a) fun _ => m.itemTexts g c group) b
  row.1.gotos.entries.foldlM (fun b (name, target) => b.setGoto group name (m.groupOf target)) b

/-- The table with a row for each group of states of a canonical table. -/
def table (m : Merging) (g : Grammar) (c : Collection Nat) (canonical : ParsingTable) :
    Except TableError ParsingTable := do
  let b ← canonical.rows.toList.zipIdx.foldlM (m.enterRow g c)
    (.withRules m.size canonical.rules)
  return b.finish (m.groupOf canonical.initial)

end Merging

/-! ### Strategies -/

/-- The ways to construct a table. -/
inductive Strategy
  | simple
  | canonical
  | merged
  deriving Repr, DecidableEq

instance : Inhabited Strategy := ⟨.merged⟩

/-- A table or the reason why there is none, and what was logged on the way. -/
structure Construction where
  log : List LogEntry
  outcome : Except TableError ParsingTable

namespace Strategy

/-- The strategy with a name; capitals make no difference. -/
def ofName? (name : String) : Option Strategy :=
  match name.toLower with
  | "slr" => some simple
  | "clr" => some canonical
  | "lr" => some canonical
  | "lalr" => some merged
  | _ => none

variable {L : Type} [DecidableEq L] [Hashable L]

/-- The construction by a discipline, with what remains to be done with its collection and table. -/
def constructWith (d : Discipline L) (g : Grammar)
    (finish : Collection L → ParsingTable → Except TableError ParsingTable × List LogEntry) :
    Construction :=
  match g.startProduction with
  | .error e => ⟨[], .error e⟩
  | .ok production =>
    let s := g.firstFollow
    let c := Collection.build d g s production
    let log := [s.logEntry, c.logEntry]
    match c.table d g s production with
    | .error e => ⟨log, .error e⟩
    | .ok t =>
      let (outcome, more) := finish c t
      ⟨log ++ more, outcome⟩

/-- The table of a grammar, and what is logged on the way. -/
def construct (strategy : Strategy) (g : Grammar) : Construction :=
  match strategy with
  | simple =>
    constructWith .plain g fun c t => (.ok t, [⟨.debug, s!"SLR table: {c.size} states"⟩])
  | canonical =>
    constructWith .canonical g fun c t => (.ok t, [⟨.debug, s!"LR(1) table: {c.size} states"⟩])
  | merged =>
    constructWith .canonical g fun c t =>
      let m := Merging.ofCollection c
      match m.table g c t with
      | .error e => (.error e, [])
      | .ok t =>
        (.ok t, [⟨.debug, s!"LALR: merged {c.size} LR(1) states into {m.size}"⟩])

/-- The table of a grammar. -/
def build (strategy : Strategy) (g : Grammar) : Except TableError ParsingTable :=
  (strategy.construct g).outcome

end Strategy

end Coscript
